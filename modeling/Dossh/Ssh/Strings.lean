import Dossh.Ssh.Run

/-!
# Strings in packets

`rd_string` takes apart what `put_str` puts together.  `rdStringWord` is `rd_string` in the
arithmetic of a build: offsets and lengths are `unsigned`, 16 bits wide under DOS, and the length
field has 32 bits.  A read behind the packet makes it fail as a whole.  It never does, and no sum
wraps, so it agrees with the reader on numbers that the handlers are written with.
-/

namespace Dossh

/-! ## The reader on words -/

/-- The width of `unsigned`. -/
def Build.bits : Build → Nat
  | .dos => 16
  | .native => 32

theorem Build.size_eq (b : Build) : b.size = 2 ^ b.bits := by
  cases b <;> rfl

/-- `rd_u32` in a packet.  `none` is a read behind its end. -/
def rdU32 (pl : List UInt8) (o : Nat) : Option (BitVec 32) :=
  if o + 4 ≤ pl.length then some (BitVec.ofNat 32 (rd32 (fun k => pl.getD k 0) o)) else none

/-- `rd_string`: the offset of the string, its length and the offset behind it, if it succeeds.
`none` is a read behind the end of the packet. -/
def rdStringWord (b : Build) (pl : List UInt8) (plen o : BitVec b.bits) :
    Option (Option (BitVec b.bits × BitVec b.bits × BitVec b.bits)) :=
  if o > plen ∨ plen - o < 4 then some none
  else
    match rdU32 pl o.toNat with
    | none => none
    | some l =>
        -- the length is compared before it is narrowed
        if l > (plen - o - 4).setWidth 32 then some none
        else
          let s := o + 4
          let slen := l.setWidth b.bits
          some (some (s, slen, s + slen))

/-- What `rd_string` found, as numbers. -/
def foundAt {w : Nat} (r : BitVec w × BitVec w × BitVec w) : Nat × Nat × Nat :=
  (r.1.toNat, r.2.1.toNat, r.2.2.toNat)

theorem rd32_lt (p : Nat → UInt8) (o : Nat) : rd32 p o < 2 ^ 32 := by
  have h0 := (p o).toNat_lt
  have h1 := (p (o + 1)).toNat_lt
  have h2 := (p (o + 2)).toNat_lt
  have h3 := (p (o + 3)).toNat_lt
  unfold rd32
  omega

/-- The length field is read inside the packet. -/
theorem rdU32_eq {pl : List UInt8} {o : Nat} (h : o + 4 ≤ pl.length) :
    ∃ l : BitVec 32, rdU32 pl o = some l ∧ l.toNat = (Payload.ofBytes pl).u32 o := by
  refine ⟨_, if_pos h, ?_⟩
  rw [BitVec.toNat_ofNat, Nat.mod_eq_of_lt (rd32_lt _ _), Payload.u32, Payload.ofBytes,
    Nat.zero_add]

section

variable {b : Build} {plen o : BitVec b.bits}

theorem toNat_four (b : Build) : (4 : BitVec b.bits).toNat = 4 := by
  cases b <;> rfl

theorem bits_le (b : Build) : 2 ^ b.bits ≤ 2 ^ 32 := by
  cases b <;> decide

/-- There is no length field at the offset. -/
theorem noRoom_iff : (o > plen ∨ plen - o < 4) ↔
    (o.toNat > plen.toNat ∨ plen.toNat - o.toNat < 4) := by
  rw [gt_iff_lt, BitVec.lt_def, BitVec.lt_def, toNat_four]
  by_cases hle : o.toNat ≤ plen.toNat
  · rw [BitVec.toNat_sub_of_le hle]
  · exact ⟨fun _ => .inl (Nat.not_le.mp hle), fun _ => .inl (Nat.not_le.mp hle)⟩

/-- What is left behind the length field, compared with 32 bits. -/
theorem toNat_rest (h : o.toNat + 4 ≤ plen.toNat) :
    ((plen - o - 4).setWidth 32).toNat = plen.toNat - o.toNat - 4 := by
  have hsub : (plen - o).toNat = plen.toNat - o.toNat :=
    BitVec.toNat_sub_of_le (BitVec.le_def.mpr (by omega))
  have hfour : (4 : BitVec b.bits) ≤ plen - o := by
    rw [BitVec.le_def, hsub, toNat_four]
    omega
  have hlt := plen.isLt
  have hbits := bits_le b
  rw [BitVec.toNat_setWidth, BitVec.toNat_sub_of_le hfour, hsub, toNat_four]
  exact Nat.mod_eq_of_lt (by omega)

/-- Sums that stay inside the packet do not wrap. -/
theorem foundAt_found {l : BitVec 32} (h : o.toNat + 4 + l.toNat ≤ plen.toNat) :
    foundAt (o + 4, l.setWidth b.bits, o + 4 + l.setWidth b.bits) =
      (o.toNat + 4, l.toNat, o.toNat + 4 + l.toNat) := by
  have hlt := plen.isLt
  have hstart : (o + 4).toNat = o.toNat + 4 := by
    rw [BitVec.toNat_add, toNat_four]
    exact Nat.mod_eq_of_lt (by omega)
  have hslen : (l.setWidth b.bits).toNat = l.toNat := by
    rw [BitVec.toNat_setWidth]
    exact Nat.mod_eq_of_lt (by omega)
  have hnext : (o + 4 + l.setWidth b.bits).toNat = o.toNat + 4 + l.toNat := by
    rw [BitVec.toNat_add, hstart, hslen]
    exact Nat.mod_eq_of_lt (by omega)
  rw [foundAt, hstart, hslen, hnext]

/-- No read leaves the packet, and words and numbers give the same result. -/
theorem rdStringWord_eq {pl : List UInt8} (hlen : pl.length = plen.toNat) :
    (rdStringWord b pl plen o).map (Option.map foundAt) =
      some ((rdString (Payload.ofBytes pl) o.toNat).map fun r => (r.1.base, r.1.len, r.2)) := by
  have hplen : (Payload.ofBytes pl).len = plen.toNat := hlen
  rw [rdStringWord, rdString, hplen]
  by_cases hroom : o > plen ∨ plen - o < 4
  · rw [if_pos hroom, if_pos (noRoom_iff.mp hroom)]
    rfl
  · have hroom' := mt noRoom_iff.mpr hroom
    rw [not_or, Nat.not_lt, Nat.not_lt] at hroom'
    have hfield : o.toNat + 4 ≤ pl.length := by omega
    obtain ⟨l, hread, hword⟩ := rdU32_eq hfield
    have hfits : l > (plen - o - 4).setWidth 32 ↔ l.toNat > plen.toNat - o.toNat - 4 := by
      rw [gt_iff_lt, BitVec.lt_def, toNat_rest (by omega)]
    rw [if_neg hroom, if_neg (mt noRoom_iff.mpr hroom), hread, ← hword]
    dsimp only
    by_cases hfit : l > (plen - o - 4).setWidth 32
    · rw [if_pos hfit, if_pos (hfits.mp hfit)]
      rfl
    · have hfit' := mt hfits.mpr hfit
      have hend : o.toNat + 4 + l.toNat ≤ plen.toNat := by omega
      rw [if_neg hfit, if_neg hfit', Option.map_some, Option.map_some, foundAt_found hend]
      simp only [Option.map_some, Payload.sub, Payload.ofBytes, Nat.zero_add]

end

/-! ## Reading what was written -/

theorem length_bytes (pl : Payload) : pl.bytes.length = pl.len := length_slice _ _ _

theorem ofBytes_bytes (pl : List UInt8) : (Payload.ofBytes pl).bytes = pl := by
  refine List.ext_getElem (length_bytes _) fun k _ hk => ?_
  simp [Payload.bytes, Payload.ofBytes, slice, hk]

/-- A part of the payload, as bytes. -/
theorem bytes_sub {pl : Payload} {o n : Nat} (h : o + n ≤ pl.len) :
    (pl.sub o n).bytes = (pl.bytes.drop o).take n := by
  obtain ⟨m, hm⟩ := Nat.exists_eq_add_of_le (Nat.le_sub_of_add_le' h)
  rw [Payload.bytes, Payload.bytes, drop_slice, hm, slice_add, List.take_left' (length_slice _ _ _)]
  rfl

/-- `rd_string` reads the string that `put_str` wrote. -/
theorem rdString_putStr {pl : Payload} {o : Nat} {s rest : List UInt8}
    (h : pl.bytes.drop o = putStr s ++ rest) (hs : s.length < 2 ^ 32) :
    rdString pl o = some (pl.sub (o + 4) s.length, o + 4 + s.length) ∧
      (pl.sub (o + 4) s.length).bytes = s ∧ pl.bytes.drop (o + 4 + s.length) = rest ∧
      o + 4 + s.length ≤ pl.len := by
  have hlen : pl.len - o = 4 + s.length + rest.length := by
    have hlen := congrArg List.length h
    rwa [List.length_drop, length_bytes, List.length_append, length_putStr] at hlen
  have hbody : pl.bytes.drop (o + 4) = s ++ rest := by
    rw [← List.drop_drop, h, putStr, List.append_assoc]
    rfl
  have hword : pl.u32 o = s.length := by
    have hfield : be32 (pl.u32 o) = (pl.bytes.drop o).take 4 := by
      rw [← bytes_sub (by omega)]
      exact be32_rd32 _ _
    rw [h] at hfield
    exact be32_inj (rd32_lt _ _) hs hfield
  refine ⟨?_, ?_, ?_, by omega⟩
  · rw [rdString, if_neg (by omega), hword, if_neg (by omega)]
  · rw [bytes_sub (by omega), hbody, List.take_left]
  · rw [← List.drop_drop, hbody, List.drop_left]

/-- The bytes that `rd_string` found on words. -/
def foundBytes {w : Nat} (pl : List UInt8) (r : BitVec w × BitVec w × BitVec w) : List UInt8 :=
  (pl.drop r.1.toNat).take r.2.1.toNat

/-- `rd_string` in a packet, in full: it does not leave the packet, it finds a string exactly if one
was written there, and then the offset behind it. -/
theorem rdStringWord_spec {b : Build} {pl : List UInt8} {plen : BitVec b.bits}
    (hlen : pl.length = plen.toNat) (o : BitVec b.bits) :
    ∃ r, rdStringWord b pl plen o = some r ∧
      (∀ s, r.map (foundBytes pl) = some s ↔ putStr s <+: pl.drop o.toNat) ∧
      ∀ found, r = some found → foundAt found =
        (o.toNat + 4, (foundBytes pl found).length, o.toNat + 4 + (foundBytes pl found).length) := by
  have hshort : ∀ {s rest : List UInt8}, putStr s ++ rest = pl.drop o.toNat → s.length < 2 ^ 32 := by
    intro s rest h
    have hbits := bits_le b
    have hlt := plen.isLt
    have hle := congrArg List.length h
    rw [List.length_append, length_putStr, List.length_drop] at hle
    omega
  obtain ⟨r, hr, hmap⟩ := Option.map_eq_some_iff.mp (rdStringWord_eq (o := o) hlen)
  refine ⟨r, hr, ?_⟩
  cases hread : rdString (Payload.ofBytes pl) o.toNat with
  | none =>
      rw [hread, Option.map_none, Option.map_eq_none_iff] at hmap
      subst hmap
      refine ⟨fun s => ⟨(fun hnone => by cases hnone), ?_⟩, (fun found hnone => by cases hnone)⟩
      rintro ⟨rest, hrest⟩
      have hdrop := hrest.symm
      rw [← ofBytes_bytes pl] at hdrop
      rw [(rdString_putStr hdrop (hshort hrest)).1] at hread
      cases hread
  | some q =>
      obtain ⟨str, o'⟩ := q
      have hdrop := (rdString_bytes hread).1
      have hpre : putStr str.bytes ++ pl.drop o' = pl.drop o.toNat := by
        rw [ofBytes_bytes] at hdrop
        exact hdrop.symm
      obtain ⟨hagain, hbytes, -, hend⟩ := rdString_putStr hdrop (hshort hpre)
      rw [hagain, Option.map_some] at hmap
      obtain ⟨found, rfl, hfound⟩ := Option.map_eq_some_iff.mp hmap
      simp only [Payload.sub, Payload.ofBytes, Nat.zero_add] at hfound
      have hfoundBytes : foundBytes pl found = str.bytes := by
        show (pl.drop (foundAt found).1).take (foundAt found).2.1 = str.bytes
        rw [bytes_sub (by omega), ofBytes_bytes] at hbytes
        rw [hfound, hbytes]
      refine ⟨fun s => ?_, fun found' hsome => ?_⟩
      · rw [Option.map_some, hfoundBytes, Option.some.injEq]
        constructor
        · rintro rfl
          exact ⟨_, hpre⟩
        · rintro ⟨rest, hrest⟩
          exact (putStr_append_inj (hshort hpre) (hshort hrest) (hpre.trans hrest.symm)).1
      · cases hsome
        rw [hfoundBytes, hfound]

/-! ## Lists of strings -/

/-- `n` calls of `rd_string`, each from the offset that the one before it left. -/
def rdStrings (b : Build) (pl : List UInt8) (plen : BitVec b.bits) :
    Nat → BitVec b.bits → Option (List (List UInt8) × BitVec b.bits)
  | 0, o => some ([], o)
  | n + 1, o =>
      match rdStringWord b pl plen o with
      | some (some found) =>
          (rdStrings b pl plen n found.2.2).map fun r => (foundBytes pl found :: r.1, r.2)
      | _ => none

/-- The strings that were written one behind the other are read back. -/
theorem rdStrings_flatMap {b : Build} {pl : List UInt8} {plen : BitVec b.bits}
    (hlen : pl.length = plen.toNat) :
    ∀ (ss : List (List UInt8)) (o : BitVec b.bits) (rest : List UInt8),
      pl.drop o.toNat = ss.flatMap putStr ++ rest →
      ∃ o', rdStrings b pl plen ss.length o = some (ss, o') ∧ pl.drop o'.toNat = rest
  | [], o, rest, h => ⟨o, rfl, h⟩
  | s :: ss, o, rest, h => by
      obtain ⟨r, hr, hspec, hoffsets⟩ := rdStringWord_spec hlen o
      rw [List.flatMap_cons, List.append_assoc] at h
      obtain ⟨found, rfl, hbytes⟩ := Option.map_eq_some_iff.mp ((hspec s).mpr ⟨_, h.symm⟩)
      have hfound := hoffsets found rfl
      rw [hbytes] at hfound
      have hnext : pl.drop found.2.2.toNat = ss.flatMap putStr ++ rest := by
        have hoffset : (foundAt found).2.2 = o.toNat + (putStr s).length := by
          rw [hfound, length_putStr, Nat.add_assoc]
        show pl.drop (foundAt found).2.2 = _
        rw [hoffset, ← List.drop_drop, h, List.drop_left]
      obtain ⟨o', hrest, hdrop⟩ := rdStrings_flatMap hlen ss found.2.2 rest hnext
      refine ⟨o', ?_, hdrop⟩
      rw [List.length_cons, rdStrings, hr]
      dsimp only
      rw [hrest, Option.map_some, hbytes]

/-! ## Requests -/

/-- `handle_userauth_request` finds the three strings that a request begins with. -/
theorem handleUserauthRequest_reads (env : SshEnv) (s : Ssh) {pl : Payload} {msg : UInt8}
    {user service method rest : List UInt8} (hlen : pl.len < env.build.size)
    (h : pl.bytes = msg :: ([user, service, method].flatMap putStr ++ rest)) :
    ∃ s' o u v m, handleUserauthRequest env s pl = userauthMethod env s' pl o u v m ∧
      u.bytes = user ∧ v.bytes = service ∧ m.bytes = method ∧ pl.bytes.drop o = rest := by
  have hbits := bits_le env.build
  rw [← env.build.size_eq] at hbits
  have hall := congrArg List.length h
  rw [length_bytes] at hall
  simp only [List.flatMap_cons, List.flatMap_nil, List.length_cons, List.length_append,
    length_putStr] at hall
  have huser : pl.bytes.drop 1 = putStr user ++ ([service, method].flatMap putStr ++ rest) := by
    rw [h, List.flatMap_cons, List.append_assoc]
    rfl
  obtain ⟨hread, hu, hdrop, -⟩ := rdString_putStr huser (by omega)
  rw [List.flatMap_cons, List.append_assoc] at hdrop
  obtain ⟨hread', hv, hdrop', -⟩ := rdString_putStr hdrop (by omega)
  rw [List.flatMap_cons, List.append_assoc] at hdrop'
  obtain ⟨hread'', hm, hdrop'', -⟩ := rdString_putStr hdrop' (by omega)
  rw [handleUserauthRequest, hread]
  dsimp only
  rw [hread']
  dsimp only
  rw [hread'']
  exact ⟨_, _, _, _, _, rfl, hu, hv, hm, hdrop''⟩

/-- What is signed determines what it is computed from. -/
theorem pkSignedData_inj {sid user service algo blob sid' user' service' algo' blob' : List UInt8}
    (hshort : ∀ str ∈ [sid, user, service, algo, blob, sid', user', service', algo', blob'],
      str.length < 2 ^ 32)
    (h : pkSignedData sid user service algo blob = pkSignedData sid' user' service' algo' blob') :
    sid = sid' ∧ user = user' ∧ service = service' ∧ algo = algo' ∧ blob = blob' := by
  simp only [List.forall_mem_cons] at hshort
  obtain ⟨h1, h2, h3, h4, h5, h1', h2', h3', h4', h5', -⟩ := hshort
  simp only [pkSignedData, putNl, List.append_assoc] at h
  obtain ⟨hsid, h⟩ := putStr_append_inj h1 h1' h
  obtain ⟨huser, h⟩ := putStr_append_inj h2 h2' (List.append_cancel_left h)
  obtain ⟨hservice, h⟩ := putStr_append_inj h3 h3' h
  obtain ⟨halgo, h⟩ := putStr_append_inj h4 h4'
    (List.append_cancel_left (List.append_cancel_left h))
  obtain ⟨hblob, -⟩ := putStr_append_inj (x := []) (y := []) h5 h5' (by simpa using h)
  exact ⟨hsid, huser, hservice, halgo, hblob⟩

theorem buildPkSignedData_eq {env : SshEnv} {sid data : List UInt8}
    {user service algo blob : Payload}
    (h : buildPkSignedData env sid user service algo blob = some data) :
    data = pkSignedData sid user.bytes service.bytes algo.bytes blob.bytes := by
  unfold buildPkSignedData at h
  dsimp only at h
  split at h
  · cases h
  · exact (Option.some.inj h).symm

/-- What `put_str` wrote is what `rd_string` finds, in both builds and for every packet and offset:
it succeeds exactly on a string that fits, with its bytes and the offset behind them, and never
reads outside the packet.  So a request gives back the strings it was put together from, to a list
of reads and to its handler, and what is signed binds the session and the strings. -/
theorem strings_round_trip :
    (∀ (b : Build) (pl : List UInt8) (plen o : BitVec b.bits),
      pl.length = plen.toNat → o ≤ plen →
      ∃ r, rdStringWord b pl plen o = some r ∧
        (∀ s, r.map (foundBytes pl) = some s ↔ putStr s <+: pl.drop o.toNat) ∧
        ∀ found, r = some found → foundAt found = (o.toNat + 4, (foundBytes pl found).length,
          o.toNat + 4 + (foundBytes pl found).length)) ∧
    (∀ (b : Build) (ss : List (List UInt8)) (rest : List UInt8) (plen : BitVec b.bits),
      (MSG_USERAUTH_REQUEST :: (ss.flatMap putStr ++ rest)).length = plen.toNat →
      ∃ o', rdStrings b (MSG_USERAUTH_REQUEST :: (ss.flatMap putStr ++ rest)) plen ss.length 1 =
          some (ss, o') ∧
        (MSG_USERAUTH_REQUEST :: (ss.flatMap putStr ++ rest)).drop o'.toNat = rest) ∧
    (∀ (env : SshEnv) (s : Ssh) (pl : Payload) (user service method rest : List UInt8),
      pl.len < env.build.size →
      pl.bytes = MSG_USERAUTH_REQUEST :: ([user, service, method].flatMap putStr ++ rest) →
      ∃ s' o u v m, handleUserauthRequest env s pl = userauthMethod env s' pl o u v m ∧
        u.bytes = user ∧ v.bytes = service ∧ m.bytes = method ∧ pl.bytes.drop o = rest) ∧
    ∀ (env : SshEnv) (sid sid' data : List UInt8)
      (user service algo blob user' service' algo' blob' : Payload),
      sid.length = 32 → sid'.length = 32 →
      (∀ str ∈ [user, service, algo, blob, user', service', algo', blob'],
        str.len < env.build.size) →
      buildPkSignedData env sid user service algo blob = some data →
      buildPkSignedData env sid' user' service' algo' blob' = some data →
      sid = sid' ∧ user.bytes = user'.bytes ∧ service.bytes = service'.bytes ∧
        algo.bytes = algo'.bytes ∧ blob.bytes = blob'.bytes := by
  refine ⟨fun b pl plen o hlen _ => rdStringWord_spec hlen o, fun b ss rest plen hlen => ?_,
    fun env s pl user service method rest hlen h => handleUserauthRequest_reads env s hlen h, ?_⟩
  · have hone : (1 : BitVec b.bits).toNat = 1 := by cases b <;> rfl
    exact rdStrings_flatMap hlen ss 1 rest (by rw [hone]; rfl)
  · intro env sid sid' data user service algo blob user' service' algo' blob' hsid hsid' hlens h h'
    have hbits := bits_le env.build
    rw [← env.build.size_eq] at hbits
    refine pkSignedData_inj ?_ ((buildPkSignedData_eq h).symm.trans (buildPkSignedData_eq h'))
    have hshort : ∀ {str : Payload}, str.len < env.build.size → str.bytes.length < 2 ^ 32 := by
      intro str hlen
      rw [length_bytes]
      exact Nat.lt_of_lt_of_le hlen hbits
    simp only [List.forall_mem_cons] at hlens ⊢
    obtain ⟨h1, h2, h3, h4, h1', h2', h3', h4', -⟩ := hlens
    exact ⟨by rw [hsid]; decide, hshort h1, hshort h2, hshort h3, hshort h4,
      by rw [hsid']; decide, hshort h1', hshort h2', hshort h3', hshort h4', List.forall_mem_nil _⟩

/-- The request of a client that asks for the methods. -/
def noneRequest : List UInt8 :=
  MSG_USERAUTH_REQUEST ::
    ([ascii "me", ascii "ssh-connection", ascii "none"].flatMap putStr ++ [])

theorem strings_round_trip_none :
    (∃ r, rdStringWord .dos noneRequest 33 1 = some r ∧
      r.map (foundBytes noneRequest) = some (ascii "me")) ∧
    (∃ o', rdStrings .dos noneRequest 33 3 1 =
      some ([ascii "me", ascii "ssh-connection", ascii "none"], o')) ∧
    (∃ s' o u v m, handleUserauthRequest sampleEnv (sshReset sampleEnv SshShared.zero)
        (.ofBytes noneRequest) = userauthMethod sampleEnv s' (.ofBytes noneRequest) o u v m ∧
      m.bytes = ascii "none") ∧
    (Payload.ofBytes (ascii "me")).bytes = ((Payload.ofBytes noneRequest).sub 5 2).bytes := by
  obtain ⟨hread, hlist, hhandler, hbinds⟩ := strings_round_trip
  refine ⟨?_, ?_, ?_, ?_⟩
  · obtain ⟨r, hr, hfinds, -⟩ := hread .dos noneRequest 33 1 (by decide) (by decide)
    exact ⟨r, hr, (hfinds _).mpr ⟨noneRequest.drop 7, by decide⟩⟩
  · obtain ⟨o', hstrings, -⟩ := hlist .dos [ascii "me", ascii "ssh-connection", ascii "none"] [] 33
      (by decide)
    exact ⟨o', hstrings⟩
  · obtain ⟨s', o, u, v, m, hrun, -, -, hm, -⟩ := hhandler sampleEnv
      (sshReset sampleEnv SshShared.zero) (.ofBytes noneRequest) _ _ _ _ (by decide)
      (ofBytes_bytes noneRequest)
    exact ⟨s', o, u, v, m, hrun, hm⟩
  · have hdata : buildPkSignedData sampleEnv (List.replicate 32 1) (.ofBytes (ascii "me"))
        (.ofBytes []) (.ofBytes []) (.ofBytes []) =
        some (pkSignedData (List.replicate 32 1) (ascii "me") [] [] []) := by decide
    have hdata' : buildPkSignedData sampleEnv (List.replicate 32 1)
        ((Payload.ofBytes noneRequest).sub 5 2) (.ofBytes []) (.ofBytes []) (.ofBytes []) =
        some (pkSignedData (List.replicate 32 1) (ascii "me") [] [] []) := by decide
    exact (hbinds sampleEnv _ _ _ _ _ _ _ _ _ _ _ (by decide) (by decide) (by decide)
      hdata hdata').2.1

end Dossh
