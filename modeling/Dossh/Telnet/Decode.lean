import Dossh.Telnet.Keyboard

/-!
# The telnet decoder

The streams that RFC 854 and RFC 1073 describe are lists of items: data bytes, commands of two
bytes, negotiations and subnegotiations, with `0xFF` doubled in data and in the bodies of
subnegotiations.  `telnet_in` keeps five states and at most eight bytes of a body.
-/

namespace Dossh

variable {n : Nat}

/-! ## Items -/

/-- An item of a telnet stream. -/
inductive TelItem where
  | data (b : UInt8)
  | command (x : UInt8) (h : x ∉ [IAC, SB, WILL, WONT, DO, DONT])
  | negotiate (verb : UInt8) (h : verb ∈ [WILL, WONT, DO, DONT]) (opt : UInt8)
  | sub (body : List UInt8)

/-- A byte with `0xFF` doubled. -/
def escapeIac (b : UInt8) : List UInt8 := if b = IAC then [IAC, IAC] else [b]

/-- The bytes of an item. -/
def TelItem.encode : TelItem → List UInt8
  | data b => escapeIac b
  | command x _ => [IAC, x]
  | negotiate verb _ opt => [IAC, verb, opt]
  | sub body => [IAC, SB] ++ (body.flatMap escapeIac ++ [IAC, SE])

/-- The data of an item. -/
def TelItem.content : TelItem → List UInt8
  | data b => [b]
  | _ => []

/-- The width and the height in the body of a NAWS subnegotiation. -/
def bodySize : List UInt8 → Option (Nat × Nat)
  | opt :: w₁ :: w₀ :: h₁ :: h₀ :: _ =>
      if opt = OPT_NAWS then
        some (w₁.toNat * 256 + w₀.toNat, h₁.toNat * 256 + h₀.toNat)
      else none
  | _ => none

/-- The size an item reports. -/
def TelItem.size : TelItem → Option (Nat × Nat)
  | sub body => bodySize body
  | _ => none

/-! ## The calls of `feed_data` -/

/-- `telnet_in` with the bytes that it passes to `feed_data`. -/
def telnetInFed (now : BitVec 32) (st : Server n) (i : Fin n) (b : UInt8) :
    List UInt8 × Server n :=
  match (st.slots i).iac with
  | .data => if b = IAC then ([], st.setIac i .iac) else ([b], feedData now st i b)
  | .iac =>
      if b = IAC then ([IAC], (feedData now st i IAC).setIac i .data)
      else if b = SB then ([], st.setSlot i { st.slots i with sbBuf := [], iac := .sb })
      else if WILL ≤ b ∧ b ≤ DONT then
        ([], st.setSlot i { st.slots i with verb := b, iac := .verb })
      else ([], st.setIac i .data)
  | .verb => ([], (respond st i (st.slots i).verb b).setIac i .data)
  | .sb => if b = IAC then ([], st.setIac i .sbIac) else ([], sbPush st i b)
  | .sbIac =>
      if b = SE then ([], (sbDone now st i).setIac i .data)
      else if b = IAC then ([], (sbPush st i IAC).setIac i .sb)
      else ([], st.setIac i .sb)

/-- A stream fed to `telnet_in`, each byte with the value of the tick counter. -/
def telnetFeed (i : Fin n) (bs : List (BitVec 32 × UInt8)) (st : Server n) :
    List UInt8 × Server n :=
  bs.foldl (fun p b =>
    (p.1 ++ (telnetInFed b.1 p.2 i b.2).1, (telnetInFed b.1 p.2 i b.2).2)) ([], st)

theorem telnetInFed_snd (now : BitVec 32) (st : Server n) (i : Fin n) (b : UInt8) :
    (telnetInFed now st i b).2 = telnetIn now st i b := by
  unfold telnetInFed telnetIn
  cases (st.slots i).iac with
  | data =>
      dsimp only
      split <;> rfl
  | iac =>
      dsimp only
      repeat' split
      all_goals rfl
  | verb => rfl
  | sb =>
      dsimp only
      split <;> rfl
  | sbIac =>
      dsimp only
      repeat' split
      all_goals rfl

theorem telnetInFed_fst (now : BitVec 32) (st : Server n) (i : Fin n) (b : UInt8) :
    (telnetInFed now st i b).1 = if isData (st.slots i).iac b then [b] else [] := by
  unfold telnetInFed
  cases (st.slots i).iac with
  | data =>
      dsimp only [isData]
      split <;> simp_all
  | iac =>
      dsimp only [isData]
      repeat' split
      all_goals simp_all
  | verb => rfl
  | sb =>
      dsimp only [isData]
      split <;> rfl
  | sbIac =>
      dsimp only [isData]
      repeat' split
      all_goals rfl

/-! ## The decoder of one slot -/

/-- What the decoder keeps of a slot. -/
structure TelParse where
  iac : IacState
  sbBuf : List UInt8
  size : Nat × Nat

def TelSlot.parse (s : TelSlot) : TelParse := ⟨s.iac, s.sbBuf, (s.nawsW, s.nawsH)⟩

namespace TelParse

/-- A byte of a body. -/
def push (p : TelParse) (b : UInt8) : TelParse :=
  if p.sbBuf.length < 8 then { p with sbBuf := p.sbBuf ++ [b] } else p

/-- One byte. -/
def next (p : TelParse) (b : UInt8) : TelParse :=
  match p.iac with
  | .data => if b = IAC then { p with iac := .iac } else p
  | .iac =>
      if b = IAC then { p with iac := .data }
      else if b = SB then { p with sbBuf := [], iac := .sb }
      else if WILL ≤ b ∧ b ≤ DONT then { p with iac := .verb }
      else { p with iac := .data }
  | .verb => { p with iac := .data }
  | .sb => if b = IAC then { p with iac := .sbIac } else p.push b
  | .sbIac =>
      if b = SE then { p with size := (bodySize p.sbBuf).getD p.size, iac := .data }
      else if b = IAC then { p.push IAC with iac := .sb }
      else { p with iac := .sb }

/-- The data of a stream. -/
def fed : TelParse → List UInt8 → List UInt8
  | _, [] => []
  | p, b :: bs => (if isData p.iac b then [b] else []) ++ fed (p.next b) bs

end TelParse

theorem Server.setIac_parse (st : Server n) (i : Fin n) (v : IacState) :
    ((st.setIac i v).slots i).parse = { (st.slots i).parse with iac := v } := by
  rw [Server.setIac, Server.setSlot_slots_self]
  rfl

theorem feedData_parse (now : BitVec 32) (st : Server n) (i : Fin n) (b : UInt8) :
    ((feedData now st i b).slots i).parse = (st.slots i).parse := by
  unfold feedData auCheck
  dsimp only
  repeat' split
  all_goals simp [auSay_slots, TelSlot.parse]

theorem respond_parse (st : Server n) (i : Fin n) (v opt : UInt8) :
    ((respond st i v opt).slots i).parse = (st.slots i).parse := by
  rw [respond_eq, Server.answer_slots_self]
  unfold TelSlot.respond
  dsimp only
  repeat' split
  all_goals rfl

theorem sbPush_parse (st : Server n) (i : Fin n) (b : UInt8) :
    ((sbPush st i b).slots i).parse = (st.slots i).parse.push b := by
  by_cases hroom : (st.slots i).sbBuf.length < 8
  · have hpush : (st.slots i).parse.push b =
        { (st.slots i).parse with sbBuf := (st.slots i).sbBuf ++ [b] } := if_pos hroom
    rw [hpush, sbPush]
    dsimp only
    rw [if_pos hroom, Server.setSlot_slots_self]
    rfl
  · have hpush : (st.slots i).parse.push b = (st.slots i).parse := if_neg hroom
    rw [hpush, sbPush, if_neg hroom]

/-- `sb_done` looks at the first five bytes. -/
theorem bodySize_eq (body : List UInt8) :
    bodySize body = if body.length ≥ 5 ∧ body.getD 0 0 = OPT_NAWS then
      some ((body.getD 1 0).toNat * 256 + (body.getD 2 0).toNat,
        (body.getD 3 0).toNat * 256 + (body.getD 4 0).toNat) else none := by
  unfold bodySize
  split
  · simp
  next hshort =>
    rw [if_neg]
    rintro ⟨hlen, -⟩
    match body, hlen with
    | opt :: w₁ :: w₀ :: h₁ :: h₀ :: rest, _ => exact hshort opt w₁ w₀ h₁ h₀ rest rfl

theorem sbDone_parse (now : BitVec 32) (st : Server n) (i : Fin n) :
    ((sbDone now st i).slots i).parse =
      { (st.slots i).parse with
        size := (bodySize (st.slots i).sbBuf).getD (st.slots i).parse.size } := by
  unfold sbDone
  dsimp only
  rw [bodySize_eq]
  split
  · split
    · split
      · simp [TelSlot.parse]
      · simp [TelSlot.parse]
    next hsame =>
      rw [not_or, not_not, not_not] at hsame
      rw [Option.getD_some, hsame.1, hsame.2]
      rfl
  · rfl

/-- `telnet_in` at its slot. -/
theorem telnetIn_parse (now : BitVec 32) (st : Server n) (i : Fin n) (b : UInt8) :
    ((telnetIn now st i b).slots i).parse = (st.slots i).parse.next b := by
  have hiac : (st.slots i).parse.iac = (st.slots i).iac := rfl
  unfold telnetIn TelParse.next
  rw [hiac]
  cases hs : (st.slots i).iac with
  | data =>
      dsimp only
      split
      · rw [Server.setIac_parse]
      · rw [feedData_parse]
  | iac =>
      dsimp only
      repeat' split
      · rw [Server.setIac_parse, feedData_parse]
      · rw [Server.setSlot_slots_self]
        rfl
      · rw [Server.setSlot_slots_self]
        rfl
      · rw [Server.setIac_parse]
  | verb => rw [Server.setIac_parse, respond_parse]
  | sb =>
      dsimp only
      split
      · rw [Server.setIac_parse]
      · rw [sbPush_parse]
  | sbIac =>
      dsimp only
      repeat' split
      · rw [Server.setIac_parse, sbDone_parse]
        rfl
      · rw [Server.setIac_parse, sbPush_parse]
      · rw [Server.setIac_parse]

/-- `telnet_in` over a stream: the decoder of the slot, what it feeds, and the other slots. -/
structure TelnetFed (i : Fin n) (bs : List UInt8) (st : Server n) (fed : List UInt8)
    (st' : Server n) : Prop where
  fed : fed = (st.slots i).parse.fed bs
  parse : (st'.slots i).parse = bs.foldl TelParse.next (st.slots i).parse
  others : ∀ j, j ≠ i → st'.slots j = st.slots j

theorem telnetFeed_foldl (i : Fin n) : ∀ (bs : List (BitVec 32 × UInt8)) (st : Server n)
    (out : List UInt8),
    bs.foldl (fun p b =>
      (p.1 ++ (telnetInFed b.1 p.2 i b.2).1, (telnetInFed b.1 p.2 i b.2).2)) (out, st) =
    (out ++ (telnetFeed i bs st).1, (telnetFeed i bs st).2)
  | [], st, out => by simp [telnetFeed]
  | b :: bs, st, out => by
      rw [telnetFeed, List.foldl_cons, List.foldl_cons, telnetFeed_foldl i bs,
        telnetFeed_foldl i bs]
      simp

theorem telnetFeed_cons (i : Fin n) (now : BitVec 32) (b : UInt8)
    (bs : List (BitVec 32 × UInt8)) (st : Server n) :
    telnetFeed i ((now, b) :: bs) st =
      ((telnetInFed now st i b).1 ++ (telnetFeed i bs (telnetIn now st i b)).1,
        (telnetFeed i bs (telnetIn now st i b)).2) := by
  rw [telnetFeed, List.foldl_cons, telnetFeed_foldl, ← telnetInFed_snd]
  rfl

theorem telnetFeed_snd (i : Fin n) : ∀ (bs : List (BitVec 32 × UInt8)) (st : Server n),
    (telnetFeed i bs st).2 = bs.foldl (fun st b => telnetIn b.1 st i b.2) st
  | [], _ => rfl
  | (now, b) :: bs, st => by
      rw [telnetFeed_cons, List.foldl_cons]
      exact telnetFeed_snd i bs (telnetIn now st i b)

theorem TelnetFed.run (i : Fin n) : ∀ (bs : List (BitVec 32 × UInt8)) (st : Server n),
    TelnetFed i (bs.map Prod.snd) st (telnetFeed i bs st).1 (telnetFeed i bs st).2
  | [], _ => ⟨rfl, rfl, fun _ _ => rfl⟩
  | (now, b) :: bs, st => by
      obtain ⟨hfed, hparse, hothers⟩ := TelnetFed.run i bs (telnetIn now st i b)
      rw [telnetIn_parse] at hfed hparse
      rw [telnetFeed_cons, List.map_cons]
      refine ⟨?_, hparse, fun j hj => ?_⟩
      · dsimp only
        rw [telnetInFed_fst, hfed]
        rfl
      · rw [hothers j hj, (Server.At.telnetIn now i st b).slots j hj]

/-! ## Items through the decoder -/

namespace TelParse

theorem fed_append : ∀ (p : TelParse) (xs ys : List UInt8),
    p.fed (xs ++ ys) = p.fed xs ++ (xs.foldl next p).fed ys
  | _, [], _ => rfl
  | p, b :: xs, ys => by
      rw [List.cons_append, fed, fed, fed_append (p.next b) xs ys, List.append_assoc]
      rfl

/-- A body is collected up to eight bytes, and nothing of it is data. -/
theorem body : ∀ (body : List UInt8) {p : TelParse}, p.iac = .sb → p.sbBuf.length ≤ 8 →
    (body.flatMap escapeIac).foldl next p = { p with sbBuf := (p.sbBuf ++ body).take 8 } ∧
      p.fed (body.flatMap escapeIac) = []
  | [], p, _, hlen => by
      rw [List.append_nil, List.take_of_length_le hlen]
      exact ⟨rfl, rfl⟩
  | b :: body', p, hsb, hlen => by
      obtain ⟨state, buf, size⟩ := p
      dsimp only at hsb hlen
      subst hsb
      have hpush : (escapeIac b).foldl next ⟨.sb, buf, size⟩ =
          (TelParse.mk .sb buf size).push b := by
        unfold escapeIac
        split
        next hb =>
          rw [hb, List.foldl_cons, List.foldl_cons]
          simp only [next, if_true]
          rw [if_neg (by decide)]
          unfold push
          split <;> rfl
        next hb =>
          rw [List.foldl_cons, List.foldl_nil]
          simp only [next, if_neg hb]
      have hquiet : (TelParse.mk .sb buf size).fed (escapeIac b) = [] := by
        unfold escapeIac
        split
        · simp [fed, next, isData]
        · simp [fed, isData]
      rw [List.flatMap_cons, List.foldl_append, fed_append, hpush, hquiet, List.nil_append]
      unfold push
      dsimp only
      split
      next hroom =>
        have hlen' : (buf ++ [b]).length ≤ 8 := by
          rw [List.length_append, List.length_singleton]
          omega
        have ih := body body' (p := ⟨.sb, buf ++ [b], size⟩) rfl hlen'
        rwa [List.append_assoc, List.singleton_append] at ih
      next hfull =>
        have ih := body body' (p := ⟨.sb, buf, size⟩) rfl hlen
        have h8 : buf.length = 8 := by omega
        rw [← h8, List.take_left] at ih ⊢
        exact ih

theorem bodySize_take (body : List UInt8) : bodySize (body.take 8) = bodySize body := by
  match body with
  | [] => rfl
  | [_] => rfl
  | [_, _] => rfl
  | [_, _, _] => rfl
  | [_, _, _, _] => rfl
  | _ :: _ :: _ :: _ :: _ :: _ => rfl

/-- One item from the data state. -/
theorem item (item : TelItem) {p : TelParse} (h : p.iac = .data) :
    (item.encode.foldl next p).iac = .data ∧
      (item.encode.foldl next p).size = item.size.getD p.size ∧
      p.fed item.encode = item.content := by
  obtain ⟨state, buf, size⟩ := p
  dsimp only at h
  subst h
  cases item with
  | data b =>
      by_cases hb : b = IAC
      · subst hb
        exact ⟨rfl, rfl, rfl⟩
      · simp [TelItem.encode, escapeIac, next, hb, fed, isData, TelItem.content, TelItem.size]
  | command x hx =>
      simp only [List.mem_cons, List.not_mem_nil, not_or] at hx
      have hverb : ¬ (WILL ≤ x ∧ x ≤ DONT) := by
        have htable : ∀ x : UInt8, WILL ≤ x ∧ x ≤ DONT →
            x = WILL ∨ x = WONT ∨ x = DO ∨ x = DONT := forall_byte (by decide +kernel)
        intro h
        obtain ⟨-, -, hwill, hwont, hdo, hdont, -⟩ := hx
        rcases htable x h with heq | heq | heq | heq
        · exact hwill heq
        · exact hwont heq
        · exact hdo heq
        · exact hdont heq
      simp [TelItem.encode, next, fed, isData, TelItem.content, TelItem.size, hx.1, hx.2.1, hverb]
  | negotiate verb hverb opt =>
      have htable : ∀ v ∈ [WILL, WONT, DO, DONT], v ≠ IAC ∧ v ≠ SB ∧ WILL ≤ v ∧ v ≤ DONT :=
        forall_mem_of_all (by decide)
      obtain ⟨hiac, hsb, hlow, hhigh⟩ := htable verb hverb
      simp [TelItem.encode, next, fed, isData, TelItem.content, TelItem.size, hiac, hsb, hlow, hhigh]
  | sub bytes =>
      obtain ⟨hrun, hquiet⟩ := body bytes (p := ⟨.sb, [], size⟩) rfl (Nat.zero_le 8)
      have hopen : [IAC, SB].foldl next ⟨.data, buf, size⟩ = ⟨.sb, [], size⟩ := by
        simp [next, IAC, SB]
      rw [TelItem.encode, List.foldl_append, List.foldl_append, fed_append, fed_append, hopen,
        hrun, hquiet, List.nil_append]
      have hclose : [IAC, SE].foldl next ⟨.sb, bytes.take 8, size⟩ =
          ⟨.data, bytes.take 8, (bodySize (bytes.take 8)).getD size⟩ := by
        simp [next]
      rw [hclose, bodySize_take]
      exact ⟨rfl, rfl, rfl⟩

/-- A list of items from the data state. -/
theorem items : ∀ (items : List TelItem) {p : TelParse}, p.iac = .data →
    ((items.flatMap TelItem.encode).foldl next p).iac = .data ∧
      ((items.flatMap TelItem.encode).foldl next p).size =
        ((items.filterMap TelItem.size).getLast?).getD p.size ∧
      p.fed (items.flatMap TelItem.encode) = items.flatMap TelItem.content
  | [], _, h => ⟨h, rfl, rfl⟩
  | x :: xs, p, h => by
      obtain ⟨hdata, hsize, hfed⟩ := item x h
      obtain ⟨hdata', hsize', hfed'⟩ := items xs hdata
      rw [List.flatMap_cons, List.foldl_append, fed_append, List.flatMap_cons, hfed, hfed']
      refine ⟨hdata', ?_, rfl⟩
      rw [hsize', hsize, List.filterMap_cons]
      cases x.size with
      | none => rfl
      | some size => rw [List.getLast?_cons, Option.getD_some, Option.getD_some]

end TelParse

/-- **Telnet decoding.**  A stream of items is decoded: `feed_data` gets the data bytes in order
and nothing else, the decoder is back in the data state, the size is that of the last NAWS
report, and the other slots are left alone. -/
theorem telnet_decodes {st : Server n} {i : Fin n} (hdata : (st.slots i).iac = .data)
    {items : List TelItem} {bs : List (BitVec 32 × UInt8)}
    (hbs : bs.map Prod.snd = items.flatMap TelItem.encode) :
    (telnetFeed i bs st).1 = items.flatMap TelItem.content ∧
      (telnetFeed i bs st).2 = bs.foldl (fun st b => telnetIn b.1 st i b.2) st ∧
      ((telnetFeed i bs st).2.slots i).iac = .data ∧
      (((telnetFeed i bs st).2.slots i).nawsW, ((telnetFeed i bs st).2.slots i).nawsH) =
        ((items.filterMap TelItem.size).getLast?).getD
          ((st.slots i).nawsW, (st.slots i).nawsH) ∧
      ∀ j, j ≠ i → (telnetFeed i bs st).2.slots j = st.slots j := by
  obtain ⟨hfed, hparse, hothers⟩ := TelnetFed.run i bs st
  obtain ⟨hback, hsize, hcontent⟩ := TelParse.items items (p := (st.slots i).parse) hdata
  rw [hbs] at hfed hparse
  rw [← hparse] at hback hsize
  exact ⟨hfed.trans hcontent, telnetFeed_snd i bs st, hback, hsize, hothers⟩

/-- A key, an option, a size with a byte `0xFF` in it, an escaped `0xFF` and a command. -/
def fewItems : List TelItem :=
  [.data 0x61, .negotiate DO (by decide) OPT_ECHO, .sub [OPT_NAWS, 0x00, 0xFF, 0x00, 0x32],
    .data 0xFF, .command 0xF1 (by decide)]

/-- They reach `feed_data` as `a` and `0xFF`, and leave a size of 255 by 50. -/
theorem telnet_decodes_few :
    let bs := (fewItems.flatMap TelItem.encode).map fun b => ((0 : BitVec 32), b)
    (pwServer.slots 0).iac = .data ∧ bs.map Prod.snd = fewItems.flatMap TelItem.encode ∧
      (telnetFeed 0 bs pwServer).1 = [0x61, 0xFF] ∧
      (((telnetFeed 0 bs pwServer).2.slots 0).nawsW,
        ((telnetFeed 0 bs pwServer).2.slots 0).nawsH) = (255, 50) := by
  intro bs
  have hbs : bs.map Prod.snd = fewItems.flatMap TelItem.encode := by
    rw [List.map_map]
    exact List.map_id _
  obtain ⟨hfed, -, -, hsize, -⟩ := telnet_decodes (i := 0) (show (pwServer.slots 0).iac = .data from rfl) hbs
  exact ⟨rfl, hbs, hfed.trans (by decide), hsize.trans (by decide)⟩

end Dossh
