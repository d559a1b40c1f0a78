import Dossh.Ssh.Client
import Dossh.Telnet.Stream
import Dossh.Worker.Steps

/-!
# The slots of the worker

Each slot of the worker is a server for a single client: to its connection what the worker does
for the others is a change of the shared part, so the connection is one that calls of `ssh.c` on it
can reach with such changes in between, and the stack is one that calls of `net.h` can reach
(`Worker.Sound`).
-/

namespace Dossh

variable {n : Nat}

/-! ## Bytes into a ring -/

/-- All bytes are accepted if there is room for them. -/
theorem putcs_fits (i : Fin n) : ∀ (bs : List UInt8) (net : Net n),
    bs.length ≤ netTxRoomSlot net i →
      Net.Queues i bs net (putcs i bs net).2 ∧
        (putcs i bs net).1 = List.replicate bs.length true ∧
        netTxRoomSlot (putcs i bs net).2 i + bs.length = netTxRoomSlot net i
  | [], net, _ => ⟨.refl i net, rfl, rfl⟩
  | b :: bs, net, h => by
      rw [List.length_cons] at h
      have hput := netTxPutcSlot_queues net i b
      rw [if_pos (by omega)] at hput
      obtain ⟨hqueues, hroom⟩ := hput
      have hflag : (netTxPutcSlot net i b).1 = true := by
        unfold netTxPutcSlot
        unfold netTxRoomSlot at h
        rw [if_neg (by omega)]
      obtain ⟨hrest, hflags, hleft⟩ := putcs_fits i bs (netTxPutcSlot net i b).2 (by omega)
      rw [putcs]
      dsimp only
      refine ⟨hqueues.trans hrest, ?_, ?_⟩
      · rw [hflag, hflags, List.length_cons, List.replicate_succ]
      · rw [List.length_cons]
        omega

namespace NetReach

/-- A call of the interface leads from one reachable state to another. -/
theorem step {net : Net n} (h : NetReach net) (op : NetOp n) : NetReach (op.run net) := by
  obtain ⟨gMac, gIp, myPort, ops, rfl⟩ := h
  refine ⟨gMac, gIp, myPort, ops ++ [op], ?_⟩
  simp [netRun]

theorem putcs (i : Fin n) : ∀ (bs : List UInt8) {net : Net n}, NetReach net →
    NetReach (Dossh.putcs i bs net).2
  | [], _, h => h
  | b :: bs, _, h => putcs i bs (h.step (.putcSlot i b))

end NetReach

/-! ## Emitting to one slot -/

/-- The connection after channel data was sealed for it. -/
def SshConn.emitted (c : SshConn) (data wire : List UInt8) : SshConn :=
  { c with
    peerWindow := c.peerWindow - data.length, sendSeq := c.sendSeq + 1
    trace := .frame true c.sendSeq (channelData c data) wire :: c.trace }

/-- A chunk that the channel can take is sealed. -/
theorem sshChannelEmit_some (env : SshEnv) (s : Ssh) {data : List UInt8} {outmax : Nat}
    (hready : sshChannelReady s.c = true) (hsealed : s.c.sendEncrypted = true) (hne : data ≠ [])
    (hchunk : data.length ≤ SSH_CHAN_CHUNK)
    (hpeer : data.length ≤ s.c.peerWindow ∧ data.length ≤ s.c.peerMaxpkt)
    (hout : data.length + 40 ≤ outmax) :
    ∃ wire pad k, sshChannelEmit env s data outmax =
        (some wire, ⟨s.c.emitted data wire, { s.g with rngPos := k }, s.reads⟩) ∧
      wire = sealFrame env.crypto s.c.ekS2c s.c.sendSeq (channelData s.c data) pad ∧
      wire.length = 30 + data.length + padLen (1 + (9 + data.length)) := by
  have hpos : 0 < data.length := List.length_pos_of_ne_nil hne
  have hlen := length_aeadSeal env
    { s with c := { s.c with peerWindow := s.c.peerWindow - data.length } } (channelData s.c data)
  rw [wireLen, if_pos rfl, length_channelData] at hlen
  have hgate : ¬ (!sshChannelReady s.c || !s.c.sendEncrypted) = true := by
    rw [hready, hsealed]
    decide
  unfold sshChannelEmit
  dsimp only
  rw [if_neg hgate, if_neg (by omega), if_neg (by omega), if_neg (by omega)]
  unfold Ssh.aeadSeal at hlen ⊢
  dsimp only at hlen ⊢
  generalize env.rngBytes _ _ = pad at hlen ⊢
  generalize hwire : sealFrame _ _ _ _ pad = wire at hlen ⊢
  exact ⟨wire, pad, _, rfl, hwire.symm, by omega⟩

/-- The client got all of `data`, in one packet that went to its ring as a whole and left all but
one byte of the reserve free. -/
structure EmitRec.Whole (env : SshEnv) (data : List UInt8) (e : EmitRec n) : Prop where
  ready : sshChannelReady e.conn = true
  authenticated : e.conn.authenticated = true
  sealed : e.conn.sendEncrypted = true
  wire : ∃ wire pad, e.wire = some wire ∧
    wire = sealFrame env.crypto e.conn.ekS2c e.conn.sendSeq (channelData e.conn data) pad ∧
    wire.length ≤ SSH_CHAN_CHUNK + 40 ∧ e.accepted = List.replicate wire.length true
  room : SSH_RING_RESERVE - 1 ≤ e.room

/-- What a round does to a slot that takes part. -/
structure Worker.Takes (data : List UInt8) (w w' : Worker n) (j : Fin n) : Prop where
  conn : ∃ wire, w'.slots j = (w.slots j).emitted data wire ∧
    ∀ g, streamOf j g w'.net.log =
      streamOf j g w.net.log ++ if g = (w.net.conns j).gen then wire else []
  life : (w'.net.conns j).life = (w.net.conns j).life

/-- What it does to the others. -/
structure Worker.Keeps (w w' : Worker n) (j : Fin n) : Prop where
  slot : w'.slots j = w.slots j
  conn : w'.net.conns j = w.net.conns j
  log : LogSame j w.net.log w'.net.log

/-- What it does to the rest of the state. -/
structure Worker.Aside (w w' : Worker n) : Prop where
  active : w'.active = w.active
  shared : w'.shared = { w.shared with rngPos := w'.shared.rngPos }
  seen : w'.readySeen = w.readySeen
  size : w'.cols = w.cols ∧ w'.rows = w.rows
  eofExit : w'.eofExit = w.eofExit
  key : w'.key = w.key
  render : w'.render = w.render
  hist : w'.hist = { w.hist with rounds := w'.hist.rounds }

namespace Worker

variable {env : SshEnv} {data : List UInt8}

namespace Keeps

variable {w w' w'' : Worker n} {j : Fin n}

theorem refl (w : Worker n) (j : Fin n) : Keeps w w j := ⟨rfl, rfl, .refl j _⟩

theorem trans (h : Keeps w w' j) (h' : Keeps w' w'' j) : Keeps w w'' j :=
  ⟨h'.slot.trans h.slot, h'.conn.trans h.conn, h.log.trans h'.log⟩

theorem eligible (h : Keeps w w' j) (ha : Aside w w') : w'.eligible j = w.eligible j := by
  simp only [Worker.eligible, netSlotConnected, ha.active, h.conn, h.slot]

theorem slotCap (h : Keeps w w' j) : w'.slotCap j = w.slotCap j := by
  unfold Worker.slotCap netTxRoomSlot
  rw [h.conn, h.slot]

theorem takes (h : Keeps w w' j) (h' : Takes data w' w'' j) : Takes data w w'' j := by
  obtain ⟨⟨wire, hc, hlog⟩, hlife⟩ := h'
  refine ⟨⟨wire, by rw [hc, h.slot], fun g => ?_⟩, by rw [hlife, h.conn]⟩
  rw [hlog, h.log.stream, h.conn]

end Keeps

theorem Takes.keeps {w w' w'' : Worker n} {j : Fin n} (h : Takes data w w' j)
    (h' : Keeps w' w'' j) : Takes data w w'' j := by
  obtain ⟨⟨wire, hc, hlog⟩, hlife⟩ := h
  exact ⟨⟨wire, by rw [h'.slot, hc], fun g => by rw [h'.log.stream, hlog]⟩, by rw [h'.conn, hlife]⟩

theorem Aside.refl (w : Worker n) : Aside w w := ⟨rfl, rfl, rfl, ⟨rfl, rfl⟩, rfl, rfl, rfl, rfl⟩

theorem Aside.trans {w w' w'' : Worker n} (h : Aside w w') (h' : Aside w' w'') : Aside w w'' where
  active := h'.active.trans h.active
  shared := by
    rw [h'.shared, h.shared]
  seen := h'.seen.trans h.seen
  size := ⟨h'.size.1.trans h.size.1, h'.size.2.trans h.size.2⟩
  eofExit := h'.eofExit.trans h.eofExit
  key := h'.key.trans h.key
  render := h'.render.trans h.render
  hist := by
    rw [h'.hist, h.hist]

/-- What the size of a chunk that suits a ready slot says. -/
theorem slotCap_bounds {w : Worker n} {i : Fin n} (hready : sshChannelReady (w.slots i) = true)
    {k : Nat} (hpos : 0 < k) (hfit : k ≤ w.slotCap i) :
    k + SSH_RING_RESERVE + 40 ≤ netTxRoomSlot w.net i ∧ k ≤ (w.slots i).peerWindow ∧
      k ≤ (w.slots i).peerMaxpkt := by
  have havail : sshChannelAvail (w.slots i) =
      min (min SSH_CHAN_CHUNK (w.slots i).peerWindow) (w.slots i).peerMaxpkt := by
    rw [sshChannelAvail, hready]
    rfl
  unfold slotCap at hfit
  rw [havail] at hfit
  dsimp only at hfit
  generalize netTxRoomSlot w.net i = room at hfit ⊢
  split at hfit <;> split at hfit <;> omega

/-- What a round needs of a slot that takes part. -/
structure Suits (data : List UInt8) (w : Worker n) (i : Fin n) : Prop where
  authenticated : (w.slots i).authenticated = true
  sealed : (w.slots i).sendEncrypted = true
  fit : data.length ≤ w.slotCap i

theorem Suits.keeps {w w' : Worker n} {i : Fin n} (h : Suits data w i) (hk : Keeps w w' i) :
    Suits data w' i :=
  ⟨by rw [hk.slot]; exact h.authenticated, by rw [hk.slot]; exact h.sealed,
    by rw [hk.slotCap]; exact h.fit⟩

/-- A chunk that suits the slot is sealed and goes to the ring as a whole. -/
theorem emitSlot_takes (env : SshEnv) {w : Worker n} {i : Fin n} (hel : w.eligible i = true)
    (hsuits : Suits data w i) (hne : data ≠ []) (hchunk : data.length ≤ SSH_CHAN_CHUNK) :
    ∃ e : EmitRec n, e.slot = i ∧ e.conn = w.slots i ∧ e.Whole env data ∧
      (emitSlot env data w i).hist.rounds = (w.noteEmit e).hist.rounds ∧
      Takes data w (emitSlot env data w i) i ∧ Aside w (emitSlot env data w i) ∧
      ∀ j, j ≠ i → Keeps w (emitSlot env data w i) j := by
  have hpos : 0 < data.length := List.length_pos_of_ne_nil hne
  obtain ⟨hauth, hsealed, hfit⟩ := hsuits
  have hready : sshChannelReady (w.slots i) = true := by
    simp only [eligible, Bool.and_eq_true] at hel
    exact hel.2
  obtain ⟨hroom, hwindow, hmaxpkt⟩ := slotCap_bounds hready hpos hfit
  obtain ⟨wire, pad, k, hemit, hwire, hlen⟩ := sshChannelEmit_some env (w.ssh i) hready hsealed hne
    hchunk ⟨hwindow, hmaxpkt⟩ (Nat.add_le_add_right hchunk 40)
  have hpad := padLen_channelData data.length
  have hsz : SSH_RING_RESERVE = 512 ∧ SSH_CHAN_CHUNK = 200 := ⟨rfl, rfl⟩
  obtain ⟨hqueues, haccepted, hleft⟩ := putcs_fits i wire w.net (by omega)
  unfold emitSlot
  rw [hel, Bool.not_true, if_neg Bool.false_ne_true, hemit]
  dsimp only [Option.getD_some]
  refine ⟨⟨i, w.slots i, some wire, _, _⟩, rfl, rfl, ?_, rfl, ?_, ?_, fun j hj => ?_⟩
  · refine ⟨hready, hauth, hsealed, ⟨wire, pad, rfl, hwire, by omega, haccepted⟩, ?_⟩
    show 512 - 1 ≤ netTxRoomSlot (putcs i wire w.net).2 i
    omega
  · refine ⟨⟨wire, Function.update_self _ _ _, fun g => (streamOf_queues hqueues g).1⟩, hqueues.life⟩
  · exact ⟨rfl, rfl, rfl, ⟨rfl, rfl⟩, rfl, rfl, rfl, rfl⟩
  · exact ⟨Function.update_of_ne hj _ _, hqueues.others j hj, hqueues.logSame hj⟩

/-- What the loop over the slots did. -/
structure Emitted (env : SshEnv) (data : List UInt8) (is : List (Fin n)) (w w' : Worker n)
    (es : List (EmitRec n)) : Prop where
  rounds : ∀ r rs, w.hist.rounds = r :: rs →
    w'.hist.rounds = { r with emits := es ++ r.emits } :: rs
  slots : es.reverse.map (·.slot) = is.filter w.eligible
  whole : ∀ e ∈ es, e.conn = w.slots e.slot ∧ e.Whole env data
  takes : ∀ j ∈ is, w.eligible j = true → Takes data w w' j
  keeps : ∀ j, (j ∈ is → w.eligible j = false) → Keeps w w' j
  aside : Aside w w'

/-- Every slot that takes part gets the chunk, in the order of the slots. -/
theorem emitSlots (env : SshEnv) (hne : data ≠ []) (hchunk : data.length ≤ SSH_CHAN_CHUNK)
    {is : List (Fin n)} {w : Worker n} (hnodup : is.Nodup)
    (hsuits : ∀ i ∈ is, w.eligible i = true → Suits data w i) :
    ∃ es, Emitted env data is w (is.foldl (emitSlot env data) w) es := by
  induction is generalizing w with
  | nil =>
      rw [List.foldl_nil]
      refine ⟨[], fun r rs hr => hr, rfl, fun e he => ?_, fun j hj => ?_, fun j _ => .refl w j,
        .refl w⟩
      · cases he
      · cases hj
  | cons i is ih =>
      obtain ⟨hi, hnodup⟩ := List.nodup_cons.mp hnodup
      rw [List.foldl_cons]
      cases hel : w.eligible i with
      | false =>
          have hskip : emitSlot env data w i = w := by
            rw [emitSlot, hel]
            rfl
          rw [hskip]
          obtain ⟨es, hes⟩ := ih hnodup fun j hj =>
            hsuits j (List.mem_cons_of_mem i hj)
          refine ⟨es, hes.rounds, ?_, hes.whole, fun j hj hjel => ?_, fun j hj => ?_, hes.aside⟩
          · rw [List.filter_cons_of_neg (by rw [hel]; exact Bool.false_ne_true)]
            exact hes.slots
          · rcases List.mem_cons.mp hj with rfl | hj
            · rw [hel] at hjel
              cases hjel
            · exact hes.takes j hj hjel
          · exact hes.keeps j fun hmem => hj (List.mem_cons_of_mem i hmem)
      | true =>
          obtain ⟨e, heslot, heconn, hewhole, hrounds, htakes, haside, hkeeps⟩ :=
            emitSlot_takes env hel (hsuits i List.mem_cons_self hel) hne hchunk
          generalize emitSlot env data w i = w₁ at hrounds htakes haside hkeeps ⊢
          have hlater : ∀ j ∈ is, Keeps w w₁ j := fun j hj =>
            hkeeps j fun hji => hi (hji ▸ hj)
          have hsame : ∀ j ∈ is, w₁.eligible j = w.eligible j := fun j hj =>
            (hlater j hj).eligible haside
          obtain ⟨es, hes⟩ := ih (w := w₁) hnodup fun j hj hjel => by
            rw [hsame j hj] at hjel
            exact (hsuits j (List.mem_cons_of_mem i hj) hjel).keeps (hlater j hj)
          refine ⟨es ++ [e], fun r rs hr => ?_, ?_, fun e' he' => ?_, fun j hj hjel => ?_,
            fun j hj => ?_, haside.trans hes.aside⟩
          · have hnote : w₁.hist.rounds = { r with emits := e :: r.emits } :: rs := by
              rw [hrounds, noteEmit]
              dsimp only
              rw [hr]
            rw [hes.rounds _ _ hnote]
            simp
          · rw [List.reverse_append, List.map_append, hes.slots,
              List.filter_cons_of_pos hel, List.filter_congr hsame]
            simp [heslot]
          · rcases List.mem_append.mp he' with he' | he'
            · obtain ⟨hconn, hwhole⟩ := hes.whole e' he'
              have hmem : e'.slot ∈ is := by
                have hin : e'.slot ∈ es.reverse.map (·.slot) :=
                  List.mem_map_of_mem (List.mem_reverse.mpr he')
                rw [hes.slots] at hin
                exact (List.mem_filter.mp hin).1
              exact ⟨hconn.trans (hlater _ hmem).slot, hwhole⟩
            · rw [List.mem_singleton] at he'
              subst he'
              exact ⟨by rw [heconn, heslot], hewhole⟩
          · rcases List.mem_cons.mp hj with rfl | hj
            · exact htakes.keeps (hes.keeps j fun hmem => absurd hmem hi)
            · exact (hlater j hj).takes (hes.takes j hj ((hsame j hj).trans hjel))
          · have hji : j ≠ i := by
              rintro rfl
              rw [hj List.mem_cons_self] at hel
              cases hel
            refine (hkeeps j hji).trans (hes.keeps j fun hmem => ?_)
            exact (hsame j hmem).trans (hj (List.mem_cons_of_mem i hmem))

end Worker

/-- A recorded round: every slot that took part got the whole chunk, in the order of the slots. -/
structure Round.Whole (env : SshEnv) (r : Round n) : Prop where
  some : r.data ≠ []
  chunk : r.data.length ≤ SSH_CHAN_CHUNK
  slots : r.emits.reverse.map (·.slot) = (List.finRange n).filter r.eligible
  emits : ∀ e ∈ r.emits, e.Whole env r.data

namespace Worker

/-- A round from `w` to `w'` that handed out `data`. -/
structure Casts (env : SshEnv) (data : List UInt8) (w w' : Worker n) : Prop where
  round : ∃ r : Round n, w'.hist.rounds = r :: w.hist.rounds ∧ r.data = data ∧
    r.eligible = w.eligible ∧ r.Whole env ∧ ∀ e ∈ r.emits, e.conn = w.slots e.slot
  takes : ∀ j, w.eligible j = true → Takes data w w' j
  keeps : ∀ j, w.eligible j = false → Keeps w w' j
  aside : Aside w w'

theorem emitRound_casts {w : Worker n} (hne : data ≠ []) (hchunk : data.length ≤ SSH_CHAN_CHUNK)
    (hsuits : ∀ i, w.eligible i = true → Suits data w i) :
    Casts env data w (emitRound env data w) := by
  unfold emitRound
  dsimp only
  generalize hw₁ : ({ w with hist := { w.hist with
    rounds := { data := data, eligible := w.eligible, emits := [] } :: w.hist.rounds } } :
      Worker n) = w₁
  have hsame : ∀ j, Keeps w w₁ j := fun j => by
    rw [← hw₁]
    exact ⟨rfl, rfl, .refl j _⟩
  have haside : Aside w w₁ := by
    rw [← hw₁]
    exact ⟨rfl, rfl, rfl, ⟨rfl, rfl⟩, rfl, rfl, rfl, rfl⟩
  have hrounds : w₁.hist.rounds =
      { data := data, eligible := w.eligible, emits := [] } :: w.hist.rounds := by
    rw [← hw₁]
  have hel : w₁.eligible = w.eligible := funext fun j => (hsame j).eligible haside
  obtain ⟨es, hes⟩ := emitSlots env hne hchunk (w := w₁) (List.nodup_finRange n)
    fun i _ hi => (hsuits i (by rw [← hel]; exact hi)).keeps (hsame i)
  refine ⟨⟨_, hes.rounds _ _ hrounds, rfl, rfl, ⟨hne, hchunk, ?_, fun e he => ?_⟩, fun e he => ?_⟩,
    fun j hj => ?_, fun j hj => ?_, haside.trans hes.aside⟩
  · rw [List.append_nil, hes.slots, hel]
  · rw [List.append_nil] at he
    exact (hes.whole e he).2
  · rw [List.append_nil] at he
    exact (hes.whole e he).1.trans (hsame _).slot
  · exact (hsame j).takes (hes.takes j (List.mem_finRange j) (by rw [hel]; exact hj))
  · exact (hsame j).trans (hes.keeps j fun _ => by rw [hel]; exact hj)

theorem pullLoop_length (s : Screen) : ∀ (k : Nat) (r : Render),
    (pullLoop s k r).1.length ≤ k
  | 0, _ => Nat.le_refl 0
  | k + 1, r => by
      rw [pullLoop]
      rcases renderNextByte false s r with ⟨_ | b, r'⟩
      · exact Nat.zero_le _
      · exact Nat.succ_le_succ (pullLoop_length s k r')

end Worker

/-! ## The invariant -/

/-- Between the slots nothing is said about a slot that is serviced. -/
theorem Phase.noTurn {p : Phase n} {P : Fin n → Prop} (hp : p.slot = none) :
    ∀ i, p.slot = some i → P i := by
  intro i hi
  rw [hp] at hi
  cases hi

namespace Worker

/-- The connections in use are those of servers for one client, nothing is staged in `g_cout`, and
the rounds of the broadcast were whole. -/
structure Sound (env : SshEnv) (p : Phase n) (w : Worker n) : Prop where
  net : NetReach w.net
  cout : w.shared.cout = []
  turn : ∀ i, p.slot = some i → w.active i = true
  slots : ∀ i, w.active i = true → (w.slots i).Reached env
  closed : ∀ i, w.active i = true → (w.slots i).chanSentClose = true →
    (w.slots i).chanClosed = true
  rounds : ∀ r ∈ w.hist.rounds, r.Whole env

theorem begun_slots (env : SshEnv) (w : Worker n) (i : Fin n) :
    (begun env w i).slots = Function.update w.slots i (sshReset env w.shared).c := by
  unfold begun
  dsimp only [setSsh, setActive, enter]

theorem begun_shared (env : SshEnv) (w : Worker n) (i : Fin n) :
    (begun env w i).shared = (sshReset env w.shared).g := by
  unfold begun
  dsimp only [setSsh, setActive, enter]

/-- `render_reset` if the slot is first seen ready. -/
def greeted (now : BitVec 32) (w : Worker n) (i : Fin n) : Worker n :=
  if !w.readySeen i then
    repaint now { w with
      readySeen := Function.update w.readySeen i true
      hist := { w.hist with
        readied := w.hist.readied + 1
        mark := Function.update w.hist.mark i w.hist.rounds.length } }
  else w

/-- `render_reset` if the terminal of the slot has not the size that was last seen. -/
def refitted (now : BitVec 32) (w : Worker n) (i : Fin n) : Worker n :=
  let size := sshWinsize (w.slots i)
  if size.1 ≠ w.cols ∨ size.2 ≠ w.rows then
    repaint now { w with cols := size.1, rows := size.2 }
  else w

theorem sshLook_eq (now : BitVec 32) (w : Worker n) (i : Fin n) :
    sshLook now w i =
      if sshChannelReady (w.slots i) then (w.greeted now i).refitted now i else w := rfl

/-- Looking at a slot changes what was seen and the renderer, and nothing else. -/
structure Glances (w w' : Worker n) : Prop where
  net : w'.net = w.net
  slots : w'.slots = w.slots
  shared : w'.shared = w.shared
  active : w'.active = w.active
  key : w'.key = w.key
  eofExit : w'.eofExit = w.eofExit
  hist : w'.hist = { w.hist with
    resets := w'.hist.resets, readied := w'.hist.readied, mark := w'.hist.mark }

theorem Glances.refl (w : Worker n) : Glances w w := ⟨rfl, rfl, rfl, rfl, rfl, rfl, rfl⟩

theorem Glances.trans {w w' w'' : Worker n} (h : Glances w w') (h' : Glances w' w'') :
    Glances w w'' :=
  ⟨h'.net.trans h.net, h'.slots.trans h.slots, h'.shared.trans h.shared,
    h'.active.trans h.active, h'.key.trans h.key, h'.eofExit.trans h.eofExit, by
    rw [h'.hist, h.hist]⟩

theorem greeted_glances (now : BitVec 32) (w : Worker n) (i : Fin n) :
    Glances w (w.greeted now i) := by
  unfold greeted
  split
  · exact ⟨rfl, rfl, rfl, rfl, rfl, rfl, rfl⟩
  · exact .refl w

theorem refitted_glances (now : BitVec 32) (w : Worker n) (i : Fin n) :
    Glances w (w.refitted now i) := by
  unfold refitted
  dsimp only
  split
  · exact ⟨rfl, rfl, rfl, rfl, rfl, rfl, rfl⟩
  · exact .refl w

theorem sshLook_glances (now : BitVec 32) (w : Worker n) (i : Fin n) :
    Glances w (sshLook now w i) := by
  rw [sshLook_eq]
  split
  · exact (greeted_glances now w i).trans (refitted_glances now _ i)
  · exact .refl w

namespace Sound

variable {env : SshEnv} {p p' : Phase n} {w w' : Worker n}

/-- A slot that takes part has an encrypted channel, which was opened for a client that is
authenticated. -/
theorem suits (h : Sound env p w) {i : Fin n} (hel : w.eligible i = true) {data : List UInt8}
    (hfit : data.length ≤ w.slotCap i) : Suits data w i := by
  simp only [eligible, sshChannelReady, Bool.and_eq_true] at hel
  have hreached := h.slots i hel.1.1
  obtain ⟨r, hreach⟩ := hreached.reach w.shared
  exact ⟨hreach.transportInv.channel (.inl hel.2.1.1), hreached.sealed hel.2.1.1, hfit⟩

/-- A step that leaves the connections alone and takes no slot into use. -/
theorem same (h : Sound env p w) (hnet : NetReach w'.net) (hcout : w'.shared.cout = w.shared.cout)
    (hslots : w'.slots = w.slots) (hact : ∀ i, w'.active i = true → w.active i = true)
    (hturn : ∀ i, p'.slot = some i → w'.active i = true)
    (hrounds : w'.hist.rounds = w.hist.rounds) : Sound env p' w' where
  net := hnet
  cout := hcout.trans h.cout
  turn := hturn
  slots i hi := by
    rw [hslots]
    exact h.slots i (hact i hi)
  closed i hi := by
    rw [hslots]
    exact h.closed i (hact i hi)
  rounds := by
    rw [hrounds]
    exact h.rounds

theorem glances (h : Sound env p w) (hg : Glances w w') (hp : p'.slot = p.slot) :
    Sound env p' w' := by
  have hactive := hg.active
  have hrounds := congrArg WorkerHist.rounds hg.hist
  exact h.same (hg.net ▸ h.net) (by rw [hg.shared]) hg.slots (fun j hj => hactive ▸ hj)
    (fun j hj => by rw [hactive]; exact h.turn j (hp ▸ hj)) hrounds

/-- A call on the connection of the slot that is serviced. -/
theorem call (h : Sound env p w) {i : Fin n} (hp : p.slot = some i) (hp' : p'.slot = some i)
    {op : SshOp} {s : Ssh} (hrun : op.run env (w.ssh i) = some s)
    (hadv : (w.ssh i).Advances s) : Sound env p' (w.setSsh i s) := by
  have hactive := h.turn i hp
  have hs := hadv h.cout
  refine ⟨h.net, hs.cout, fun j hj => ?_, fun j hj => ?_, fun j hj => ?_, h.rounds⟩
  · rw [hp'] at hj
    cases hj
    exact hactive
  · by_cases hji : j = i
    · subst hji
      show (Function.update w.slots j s.c j).Reached env
      rw [Function.update_self]
      exact (h.slots j hj).call hrun
    · show (Function.update w.slots i s.c j).Reached env
      rw [Function.update_of_ne hji]
      exact h.slots j hj
  · by_cases hji : j = i
    · subst hji
      show (Function.update w.slots j s.c j).chanSentClose = true →
        (Function.update w.slots j s.c j).chanClosed = true
      rw [Function.update_self]
      intro hsent
      rcases hs.sentClose hsent with hold | hclosed
      · exact hs.closed (h.closed j hj hold)
      · exact hclosed
    · show (Function.update w.slots i s.c j).chanSentClose = true →
        (Function.update w.slots i s.c j).chanClosed = true
      rw [Function.update_of_ne hji]
      exact h.closed j hj

/-- A new connection takes the slot. -/
theorem begun (h : Sound env .joining w) (i : Fin n) : Sound env .joining (Worker.begun env w i) := by
  obtain ⟨hcout, -, hflags⟩ := sshReset_shell env w.shared
  have hreset := SshConn.Reached.reset env w.shared
  have hsent := congrArg (fun f => f.2.2.1) hflags
  have hslots := begun_slots env w i
  have hactive : (Worker.begun env w i).active = Function.update w.active i true := rfl
  have hshared := begun_shared env w i
  have hnet : (Worker.begun env w i).net = w.net := rfl
  have hrounds : (Worker.begun env w i).hist.rounds = w.hist.rounds := rfl
  generalize Worker.begun env w i = w₁ at *
  generalize sshReset env w.shared = s at *
  refine ⟨hnet ▸ h.net, by rw [hshared, hcout], Phase.noTurn rfl, fun j hj => ?_, fun j hj => ?_,
    hrounds ▸ h.rounds⟩
  · rw [hactive] at hj
    rw [hslots]
    by_cases hji : j = i
    · subst hji
      rw [Function.update_self]
      exact hreset
    · rw [Function.update_of_ne hji] at hj ⊢
      exact h.slots j hj
  · rw [hactive] at hj
    rw [hslots]
    by_cases hji : j = i
    · subst hji
      rw [Function.update_self]
      exact fun hs => absurd (hsent.symm.trans hs) Bool.false_ne_true
    · rw [Function.update_of_ne hji] at hj ⊢
      exact h.closed j hj

/-- Framing a chunk for one slot is a call on its connection. -/
theorem emitSlot (h : NetReach w.net ∧ ∀ j, w.active j = true → (w.slots j).Reached env)
    (data : List UInt8) (i : Fin n) :
    NetReach (Dossh.emitSlot env data w i).net ∧
      ∀ j, (Dossh.emitSlot env data w i).active j = true →
        ((Dossh.emitSlot env data w i).slots j).Reached env := by
  unfold Dossh.emitSlot
  split
  · exact h
  · refine ⟨h.1.putcs i _, fun j hj => ?_⟩
    show (Function.update w.slots i (sshChannelEmit env (w.ssh i) data _).2.c j).Reached env
    by_cases hji : j = i
    · subst hji
      rw [Function.update_self]
      have hrun : (SshOp.emit data (SSH_CHAN_CHUNK + 40)).run env (w.ssh j) =
          some (sshChannelEmit env (w.ssh j) data (SSH_CHAN_CHUNK + 40)).2 := rfl
      exact (h.2 j hj).call hrun
    · rw [Function.update_of_ne hji]
      exact h.2 j hj

theorem emitRound (h : Sound env p w) (data : List UInt8) :
    NetReach (Dossh.emitRound env data w).net ∧
      ∀ j, (Dossh.emitRound env data w).active j = true →
        ((Dossh.emitRound env data w).slots j).Reached env := by
  unfold Dossh.emitRound
  refine List.foldlRecOn (motive := fun w : Worker n =>
    NetReach w.net ∧ ∀ j, w.active j = true → (w.slots j).Reached env) _ _ ⟨h.net, h.slots⟩ ?_
  exact fun w hw i _ => emitSlot hw data i

/-- The chunk of a round suits the slots that take part. -/
theorem round_casts (h : Sound env p w) {s : Screen} {cap : Nat} {data : List UInt8} {r : Render}
    (hpull : pullLoop s cap w.render = (data, r)) (hne : data ≠ []) (hcap : cap ≤ SSH_CHAN_CHUNK)
    (hfit : ∀ i, w.eligible i = true → cap ≤ w.slotCap i) :
    Casts env data { w with render := r } (Dossh.emitRound env data { w with render := r }) := by
  have hlen : data.length ≤ cap := by
    have hle := pullLoop_length s cap w.render
    rw [hpull] at hle
    exact hle
  refine emitRound_casts hne (hlen.trans hcap) fun i hi => ?_
  obtain ⟨hauth, hsealed, hle⟩ := h.suits hi (hlen.trans (hfit i hi))
  exact ⟨hauth, hsealed, hle⟩

/-- A round of the broadcast. -/
theorem casts (h : Sound env .casting w) {data : List UInt8} (hcast : Casts env data w w')
    (hnet : NetReach w'.net) (hreached : ∀ j, w'.active j = true → (w'.slots j).Reached env) :
    Sound env .casting w' := by
  obtain ⟨r, hrounds, -, -, hwhole, -⟩ := hcast.round
  have hactive := hcast.aside.active
  refine ⟨hnet, ?_, Phase.noTurn rfl, hreached, fun j hj hsent => ?_, fun r' hr' => ?_⟩
  · rw [hcast.aside.shared]
    exact h.cout
  · rw [hactive] at hj
    cases hel : w.eligible j with
    | true =>
        obtain ⟨wire, hc, -⟩ := (hcast.takes j hel).conn
        rw [hc] at hsent ⊢
        exact h.closed j hj hsent
    | false =>
        rw [(hcast.keeps j hel).slot] at hsent ⊢
        exact h.closed j hj hsent
  · rw [hrounds, List.mem_cons] at hr'
    rcases hr' with rfl | hr'
    · exact hwhole
    · exact h.rounds r' hr'

/-- Every step keeps the invariant. -/
theorem step (h : Sound env p w) (hstep : Step env p w p' w') : Sound env p' w' := by
  have hleft : ∀ (i j : Fin n), Function.update w.active i false j = true → w.active j = true := by
    intro i j hj
    by_cases hji : j = i
    · subst hji
      rw [Function.update_self] at hj
      cases hj
    · rwa [Function.update_of_ne hji] at hj
  cases hstep with
  | poll _ now pkt =>
      exact h.same (h.net.step (.poll now pkt)) rfl rfl (fun _ => id) (Phase.noTurn rfl) rfl
  | begin _ i net htake =>
      have hnet : NetReach net := by
        have hstep := h.net.step .takeNew
        rw [NetOp.run, htake] at hstep
        exact hstep
      have htaken : Sound env .joining { w with net := net } :=
        h.same hnet rfl rfl (fun _ => id) (Phase.noTurn rfl) rfl
      exact htaken.begun i
  | joined _ hnone => exact h.same h.net rfl rfl (fun _ => id) (Phase.noTurn rfl) rfl
  | skip _ i todo hact => exact h.same h.net rfl rfl (fun _ => id) (Phase.noTurn rfl) rfl
  | lost _ i todo hcon => exact h.same h.net rfl rfl (hleft i) (Phase.noTurn rfl) rfl
  | serve _ i todo hact hcon =>
      exact h.same h.net rfl rfl (fun _ => id) (fun j hj => by cases hj; exact hact) rfl
  | getc _ i todo => exact h.same (h.net.step (.rxGetc i)) rfl rfl (fun _ => id) h.turn rfl
  | quiet _ i todo => exact h.same h.net rfl rfl (fun _ => id) h.turn rfl
  | input _ i todo data beyond fuel s hin =>
      have hrun : (SshOp.input data beyond fuel).run env (w.ssh i) = some s := by
        rw [SshOp.run, hin]
        rfl
      exact h.call rfl rfl hrun (sshInput_advances hrun)
  | pumped _ i todo => exact h.same h.net rfl rfl (fun _ => id) h.turn rfl
  | key _ i todo b cin hcin hb => exact h.same h.net rfl rfl (fun _ => id) h.turn rfl
  | drained _ i todo hcin => exact h.same h.net rfl rfl (fun _ => id) h.turn rfl
  | eof _ i todo cin hcin heof =>
      -- the byte is taken, then the channel is closed
      have htaken : Sound env (.closing i todo) { w with
          shared := { w.shared with cin := cin }
          hist := { w.hist with
            ended := Function.update w.hist.ended i true
            unopened := w.hist.unopened || !(w.slots i).chanOpen } } :=
        h.same h.net rfl rfl (fun _ => id) h.turn rfl
      exact htaken.call rfl rfl (SshOp.run.eq_def env .close _) (sshChannelClose_advances env _)
  | closed _ i todo => exact h.same h.net rfl rfl (fun _ => id) h.turn rfl
  | look _ i todo now =>
      exact h.glances (sshLook_glances now w i) rfl
  | keep _ i todo hkeep => exact h.same h.net rfl rfl (fun _ => id) (Phase.noTurn rfl) rfl
  | teardown _ i todo hdoomed =>
      exact h.same (h.net.step (.slotDrop i)) rfl rfl (hleft i) (Phase.noTurn rfl) rfl
  | cast => exact h.same h.net rfl rfl (fun _ => id) (Phase.noTurn rfl) rfl
  | evict _ i => exact h.same (h.net.step (.slotDrop i)) rfl rfl (hleft i) (Phase.noTurn rfl) rfl
  | still _ s r hnone => exact h.same h.net rfl rfl (fun _ => id) (Phase.noTurn rfl) rfl
  | round _ s cap data r hpull hne hcap hfit =>
      have hstill : Sound env .casting { w with render := r } :=
        h.same h.net rfl rfl (fun _ => id) (Phase.noTurn rfl) rfl
      obtain ⟨hnet, hreached⟩ := hstill.emitRound data
      exact hstill.casts (h.round_casts hpull hne hcap hfit) hnet hreached
  | done => exact h.same h.net rfl rfl (fun _ => id) (Phase.noTurn rfl) rfl
  | output _ _ i max howner hturn hmax =>
      exact h.same (h.net.putcs i _) rfl rfl (fun _ => id) h.turn rfl
  | flush _ _ now => exact h.same (h.net.step (.flush now)) rfl rfl (fun _ => id) h.turn rfl

end Sound

end Worker

/-- Between ticks the invariant holds. -/
theorem WorkerReach.sound {env : SshEnv} {w : Worker n} (h : WorkerReach env w) :
    Worker.Sound env .idle w := by
  refine h.induct (fun gMac gIp myPort eofExit render => ?_) Worker.Sound.step
  refine ⟨⟨gMac, gIp, myPort, [], rfl⟩, rfl, Phase.noTurn rfl, fun i hi => ?_, fun i hi => ?_,
    fun r hr => ?_⟩
  · cases hi
  · cases hi
  · cases hr

/-- **The slots are servers of their own.**  Whatever the other clients do, the stack is one that
calls of its interface can reach, and the connection of a slot in use, with the shared part as it
is, is one that calls on this connection can reach, with the shared part changed arbitrarily in
between. -/
theorem worker_slots_reachable {env : SshEnv} {w : Worker n} (h : WorkerReach env w) :
    NetReach w.net ∧ ∀ i, w.active i = true → ∃ r, SshReach env ⟨w.slots i, w.shared, r⟩ :=
  ⟨h.sound.net, fun i hi => (h.sound.slots i hi).reach w.shared⟩

/-- **Whole rounds.**  Every round of the broadcast handed a chunk of at most `CHAN_CHUNK` bytes to
each slot that took part, in the order of the slots, and to no other.  The client of the slot was
authenticated, the chunk was sealed in one packet, the ring took the packet as a whole, and all but
one byte of the reserve was left: a round counts 40 bytes for what the packet adds to the chunk,
and it can be 41. -/
theorem worker_rounds_whole {env : SshEnv} {w : Worker n} (h : WorkerReach env w) :
    ∀ r ∈ w.hist.rounds, r.Whole env := h.sound.rounds

/-! ## Two clients to run with -/

/-- A tick at which a client sends a segment. -/
def sessionTick (now : BitVec 32) (port seq ack : Nat) (flags : UInt8) (data : List UInt8) :
    Tick 2 where
  pkt := some (peerFrame [10, 0, 2, 2] [10, 0, 2, 15] port 22 seq ack flags data)
  screen := { tinyScreen with ticks := now }
  beyond := fun _ _ _ => 0
  fuel := 8

/-- The client of a port connects.  The server counts its bytes from `isn`. -/
def sessionConnect (now : BitVec 32) (port isn : Nat) : List (Tick 2) :=
  [sessionTick now port 5 0 0x02 [], sessionTick now port 6 (isn + 1) 0x10 []]

/-- It sends segments, one a tick, each with the number of bytes that it acknowledges. -/
def sessionSends (port isn : Nat) : Nat → List (Nat × List UInt8) → List (Tick 2)
  | _, [] => []
  | seq, (ack, data) :: sends =>
      sessionTick 2 port seq (isn + ack) 0x18 data ::
        sessionSends port isn (seq + data.length) sends

/-- A library whose key stream, tag and hash are zero, so that packets go in clear. -/
def clearCrypto : Crypto := { sampleCrypto with
  chacha20 := fun _ _ _ _ => 0
  poly1305 := fun _ _ => List.replicate 16 0
  sha256 := fun _ => List.replicate 32 0
  length_poly1305 := fun _ _ => List.length_replicate
  length_sha256 := fun _ => List.length_replicate }

/-- The box of `sampleEnv` with this library. -/
def clearEnv : SshEnv := { sampleEnv with crypto := clearCrypto }

/-- A packet of a client.  Keys and numbers do not matter. -/
def clearFrame (payload : List UInt8) : List UInt8 :=
  sealFrame clearCrypto [] 0 payload (List.replicate (padLen (1 + payload.length)) 0)

/-- A packet goes in segments of at most 44 bytes. -/
def segments (data : List UInt8) : List (List UInt8) :=
  (List.range ((data.length + 43) / 44)).map fun k => (data.drop (44 * k)).take 44

/-- The client logs in and opens a channel with a shell, and acknowledges all that was sent. -/
def sessionLogin : List (Nat × List UInt8) :=
  ([228, 436, 480, 508, 552].zip [greeting sampleKex,
    clearFrame ([MSG_SERVICE_REQUEST] ++ putNl "ssh-userauth"),
    clearFrame ([MSG_USERAUTH_REQUEST] ++ putNl "user" ++ putNl "ssh-connection" ++
      putNl "password" ++ [0] ++ putNl "pw"),
    clearFrame ([MSG_CHANNEL_OPEN] ++ putNl "session" ++ be32 0 ++ be32 4096 ++ be32 1024),
    clearFrame ([MSG_CHANNEL_REQUEST] ++ be32 0 ++ putNl "shell" ++ [1])]).flatMap fun send =>
      (segments send.2).map (send.1, ·)

/-- The client types. -/
def sessionKeys (text : String) : List (Nat × List UInt8) :=
  [(680, clearFrame ([MSG_CHANNEL_DATA] ++ be32 0 ++ putNl text))]

/-- One client logs in, then another one, and both type. -/
def sessionTicks : List (Tick 2) :=
  sessionConnect 0 1000 79616 ++ sessionSends 1000 79616 6 sessionLogin ++
    sessionConnect 2 1001 79619 ++ sessionSends 1001 79619 6 sessionLogin ++
    sessionSends 1000 79616 510 (sessionKeys "dir") ++
    sessionSends 1001 79619 510 (sessionKeys "ls")

/-- A worker for two clients that exits on Ctrl-D. -/
def sessionStart : Worker 2 := workerInit [2, 0, 0, 0, 0, 1] [10, 0, 2, 15] 22 true coldRender

/-- The event is a data segment of the connection. -/
def NetEvent.carries (i : Fin n) (g : Nat) : NetEvent n → Bool
  | .seg j g' _ s => j = i && g' = g && !s.data.isEmpty
  | _ => false

theorem NetEvent.carries_some {i : Fin n} {g : Nat} {log : List (NetEvent n)}
    (h : log.any (NetEvent.carries i g) = true) :
    ∃ ipId s, NetEvent.seg i g ipId s ∈ log ∧ s.data ≠ [] := by
  obtain ⟨e, he, hcarries⟩ := List.any_eq_true.mp h
  cases e with
  | seg j g' ipId s =>
      simp only [carries, Bool.and_eq_true, decide_eq_true_eq, Bool.not_eq_true',
        List.isEmpty_eq_false_iff] at hcarries
      obtain ⟨⟨rfl, rfl⟩, hdata⟩ := hcarries
      exact ⟨ipId, s, he, hdata⟩
  | _ => cases hcarries

/-- A client is in the slot and typed this text. -/
def Worker.hosts (w : Worker 2) (i : Fin 2) (text : List UInt8) : Bool :=
  w.active i && w.readySeen i && w.hist.typed i == text &&
    !(dataOf (w.slots i).trace).isEmpty && (wireOf (w.slots i).trace).length < 2 ^ 32 &&
    w.net.log.any (NetEvent.carries i (w.net.conns i).gen)

/-- What is used of a slot with a client. -/
structure Worker.Hosts (w : Worker 2) (text : List UInt8) (i : Fin 2) : Prop where
  active : w.active i = true
  seen : w.readySeen i = true
  typed : w.hist.typed i = text
  shown : dataOf (w.slots i).trace ≠ []
  small : (wireOf (w.slots i).trace).length < 2 ^ 32
  sent : ∃ ipId s, NetEvent.seg i (w.net.conns i).gen ipId s ∈ w.net.log ∧ s.data ≠ []

theorem Worker.hosts_spec {w : Worker 2} {text : List UInt8} {i : Fin 2}
    (h : w.hosts i text = true) : w.Hosts text i := by
  simp only [hosts, Bool.and_eq_true, beq_iff_eq, decide_eq_true_eq, Bool.not_eq_true',
    List.isEmpty_eq_false_iff] at h
  obtain ⟨⟨⟨⟨⟨hactive, hseen⟩, htyped⟩, hshown⟩, hsmall⟩, hsent⟩ := h
  exact ⟨hactive, hseen, htyped, hshown, hsmall, NetEvent.carries_some hsent⟩

/-- What is used of the state that the clients bring about. -/
structure Session (w : Worker 2) : Prop where
  reach : WorkerReach clearEnv w
  clients : ∀ i, ∃ text, w.Hosts text i
  typed : w.hist.typed 0 = ascii "dir" ∧ w.hist.typed 1 = ascii "ls"
  rounds : w.hist.rounds.length = 2
  unmixed : w.hist.mixed = false ∧ w.hist.stale = false ∧ w.hist.unopened = false ∧
    w.shared.overflow = false
  idle : (renderNextByte false { tinyScreen with ticks := 2 } w.render).1 = none

theorem session_run : ∃ w, Session w := by
  have hrun : (workerRun clearEnv sessionTicks sessionStart).map (fun w =>
      w.hosts 0 (ascii "dir") && w.hosts 1 (ascii "ls") && w.hist.rounds.length == 2 &&
        !w.hist.mixed && !w.hist.stale && !w.hist.unopened && !w.shared.overflow &&
        (renderNextByte false { tinyScreen with ticks := 2 } w.render).1.isNone) = some true := by
    decide +kernel
  obtain ⟨w, hw, hfacts⟩ := Option.map_eq_some_iff.mp hrun
  simp only [Bool.and_eq_true, beq_iff_eq, Bool.not_eq_true', Option.isNone_iff_eq_none] at hfacts
  obtain ⟨⟨⟨⟨⟨⟨⟨hfirst, hsecond⟩, hrounds⟩, hmixed⟩, hstale⟩, hopened⟩, hfit⟩, hidle⟩ := hfacts
  have h₀ := Worker.hosts_spec hfirst
  have h₁ := Worker.hosts_spec hsecond
  exact ⟨w, ⟨_, _, _, _, _, _, hw⟩, Fin.forall_fin_two.mpr ⟨⟨_, h₀⟩, _, h₁⟩, ⟨h₀.typed, h₁.typed⟩,
    hrounds, ⟨hmixed, hstale, hopened, hfit⟩, hidle⟩

theorem worker_slots_reachable_session : ∃ w : Worker 2, WorkerReach clearEnv w ∧
    ∀ i, w.active i = true ∧ ∃ r, SshReach clearEnv ⟨w.slots i, w.shared, r⟩ := by
  obtain ⟨w, hw⟩ := session_run
  refine ⟨w, hw.reach, fun i => ?_⟩
  obtain ⟨text, hi⟩ := hw.clients i
  exact ⟨hi.active, (worker_slots_reachable hw.reach).2 i hi.active⟩

theorem worker_rounds_whole_session :
    ∃ w : Worker 2, WorkerReach clearEnv w ∧ w.hist.rounds.length = 2 ∧
      ∀ r ∈ w.hist.rounds, r.Whole clearEnv := by
  obtain ⟨w, hw⟩ := session_run
  exact ⟨w, hw.reach, hw.rounds, worker_rounds_whole hw.reach⟩

end Dossh
