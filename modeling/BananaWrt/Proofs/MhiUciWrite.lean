import BananaWrt.MhiUciWrite

/-!
# What a write reports

A round passes, or ends the call (`writeLoop_cons`). A call whose chunks all pass has queued all
that it was given, and its last chunk is not chained (`writeLoop_of_allPass`). One that ends after
chunks have been queued reports an error, or what could not be copied, and that is not what it has
queued but for one coincidence (`right_iff_of_queued`).
-/

namespace BananaWrt

namespace Uci

variable {c : WriteCfg} {rounds : List Round} {buf : Bytes} {x : ℕ} {queued : List Tre}

theorem xferSize_pos {count : ℕ} (h : 0 < count) : 0 < xferSize c count := by
  have := c.mtu_pos
  unfold xferSize
  omega

theorem xferSize_le (count : ℕ) : xferSize c count ≤ c.mtu := Nat.min_le_right _ _

def Round.flags (c : WriteCfg) (r : Round) (count : ℕ) : MhiFlags :=
  match r.waited with
  | .exit => .mhiEot
  | .avail nrAvail =>
    if 1 < nrAvail ∧ count - xferSize c count ≠ 0 then .mhiChain else .mhiEot

/-- The descriptor that is queued for the next chunk. -/
def Round.tre (c : WriteCfg) (r : Round) (buf : Bytes) : Tre :=
  mhiGenTre (buf.take (xferSize c buf.length)) (r.flags c buf.length)

/-- The flags are one or the other. -/
def Tre.Flagged (tre : Tre) : Prop := tre.eot = !tre.chain

theorem Round.flagged_tre (r : Round) (buf : Bytes) : (r.tre c buf).Flagged := by
  unfold Round.tre Round.flags
  split
  · rfl
  · split_ifs <;> rfl

theorem Round.eot_tre {r : Round} (hw : r.waited ≠ .exit) :
    (r.tre c buf).eot ↔ r.Single ∨ buf.length ≤ xferSize c buf.length := by
  unfold Round.tre Round.flags Round.Single
  rcases h : r.waited with _ | nrAvail
  · exact absurd h hw
  · dsimp only
    simp only [Waited.avail.injEq, forall_eq']
    split_ifs with hif
    · refine iff_of_false (by simp [mhiGenTre, MhiFlags.toNat]) ?_
      omega
    · refine iff_of_true rfl ?_
      omega

theorem mhiQueueBuf_cases (q : Queueing) (data : Bytes) (flags : MhiFlags) :
    ((q.inErrorState ∨ q.ringFull ∨ q.mapFails) ∧ ∃ e < 0, mhiQueueBuf q data flags = .error e)
      ∨ (¬ (q.inErrorState ∨ q.ringFull ∨ q.mapFails)
        ∧ mhiQueueBuf q data flags = .ok (mhiGenTre data flags)) := by
  unfold mhiQueueBuf
  split_ifs with h1 h2 h3
  · exact .inl ⟨.inl h1, _, by decide, rfl⟩
  · exact .inl ⟨.inr (.inl h2), _, by decide, rfl⟩
  · exact .inl ⟨.inr (.inr h3), _, by decide, rfl⟩
  · exact .inr ⟨by tauto, rfl⟩

/-- A round leaves with an error, or with what could not be copied, or it passes. -/
theorem writeLoop_cons (r : Round) (rounds : List Round) (x : ℕ) (queued : List Tre)
    (hne : buf ≠ []) :
    (¬ r.Passes c buf.length ∧ ¬ r.Faults c buf.length
        ∧ ∃ e < 0, writeLoop c (r :: rounds) buf x queued = some ⟨e, queued⟩)
      ∨ (r.Faults c buf.length ∧ writeLoop c (r :: rounds) buf x queued
        = some ⟨(xferSize c buf.length - r.readable : ℕ), queued⟩)
      ∨ (r.Passes c buf.length ∧ r.waited ≠ .exit ∧ writeLoop c (r :: rounds) buf x queued
        = writeLoop c rounds (buf.drop (xferSize c buf.length)) (x + xferSize c buf.length)
          (queued ++ [r.tre c buf])) := by
  obtain ⟨b, bs, rfl⟩ := List.exists_cons_of_ne_nil hne
  rw [List.length_cons, writeLoop]
  by_cases hstop : r.Stops c
  · refine .inl ⟨fun h => h.1 hstop, fun h => h.1 hstop, ?_⟩
    unfold Round.Stops at hstop
    dsimp only
    by_cases hnb : r.nrAvail = 0 ∧ c.nonblock
    · exact ⟨_, by decide, if_pos hnb⟩
    · rw [if_neg hnb]
      rcases hw : r.waited with _ | nrAvail
      · exact ⟨_, by decide, rfl⟩
      · refine ⟨- ENOMEM, by decide, if_pos ?_⟩
        simpa [hw, hnb] using hstop
  · have hstop' := hstop
    unfold Round.Stops at hstop'
    push Not at hstop'
    obtain ⟨hnb, hw, halloc⟩ := hstop'
    obtain ⟨nrAvail, hw'⟩ : ∃ nrAvail, r.waited = .avail nrAvail := by
      cases hcase : r.waited with
      | exit => exact absurd hcase hw
      | avail nrAvail => exact ⟨nrAvail, rfl⟩
    rw [if_neg (by simpa using hnb), hw']
    dsimp only
    rw [if_neg (not_not_intro halloc)]
    by_cases hread : r.readable < xferSize c (bs.length + 1)
    · exact .inr (.inl ⟨⟨hstop, hread⟩, if_pos (by omega)⟩)
    · have hret : ¬ xferSize c (bs.length + 1) - r.readable ≠ 0 := by omega
      have hflags : r.flags c (bs.length + 1)
          = if 1 < nrAvail ∧ bs.length + 1 - xferSize c (bs.length + 1) ≠ 0 then .mhiChain
            else .mhiEot := by
        unfold Round.flags
        rw [hw']
      rw [if_neg hret, ← hflags]
      by_cases hen : r.enabled
      · rw [if_pos hen]
        rcases mhiQueueBuf_cases r.queueing ((b :: bs).take (xferSize c (bs.length + 1)))
            (r.flags c (bs.length + 1)) with ⟨hq, e, he, hok⟩ | ⟨hq, hok⟩
        · rw [hok]
          refine .inl ⟨fun h => h.2.2 (.inr hq), fun h => hread h.2, e, he, rfl⟩
        · rw [hok]
          refine .inr (.inr ⟨⟨hstop, by omega, ?_⟩, nofun, rfl⟩)
          exact fun h => h.elim (fun hdis => hdis hen) hq
      · rw [if_neg hen]
        exact .inl ⟨fun h => h.2.2 (.inl hen), fun h => hread h.2, _, by decide, rfl⟩

def bytesOfQueued (queued : List Tre) : Bytes := (queued.map Tre.buf).flatten

theorem bytesOfQueued_push (queued : List Tre) (tre : Tre) :
    bytesOfQueued (queued ++ [tre]) = bytesOfQueued queued ++ tre.buf := by
  unfold bytesOfQueued
  rw [List.map_append, List.flatten_append, List.map_singleton, List.flatten_singleton]

/-- The last chunk, if there is one, ends a transfer. -/
def Ends (queued : List Tre) : Prop := ∀ tre ∈ queued.getLast?, tre.eot

/-- Every chained chunk is followed by one that ends the transfer if the last one does. -/
theorem ended_iff (hflag : ∀ tre ∈ queued, tre.Flagged) :
    (∀ pre tre post, queued = pre ++ tre :: post → tre.chain → ∃ tre' ∈ post, tre'.eot)
      ↔ Ends queued := by
  constructor
  · intro h tre hlast
    obtain ⟨init, rfl⟩ := List.getLast?_eq_some_iff.1 hlast
    have hf : tre.eot = !tre.chain := hflag tre (List.mem_append_right _ List.mem_cons_self)
    rw [hf]
    by_contra hchain
    obtain ⟨tre', hmem, -⟩ := h init tre [] rfl (by simpa using hchain)
    exact absurd hmem List.not_mem_nil
  · rintro h pre tre post rfl hchain
    have hf : tre.eot = !tre.chain := hflag tre (List.mem_append_right _ List.mem_cons_self)
    rcases List.eq_nil_or_concat' post with rfl | ⟨init, last, rfl⟩
    · have heot := h tre (by rw [List.getLast?_append_cons]; rfl)
      rw [hf, hchain] at heot
      simp at heot
    · refine ⟨last, by simp, h last ?_⟩
      rw [List.getLast?_append_cons, ← List.cons_append, List.getLast?_concat]
      rfl

theorem Written.sent_mk (ret : ℤ) : (Written.mk ret queued).sent = bytesOfQueued queued := rfl

theorem allPass_cons {r : Round} (hne : buf ≠ []) :
    AllPass c (r :: rounds) buf.length
      ↔ r.Passes c buf.length ∧ AllPass c rounds (buf.drop (xferSize c buf.length)).length := by
  obtain ⟨b, bs, rfl⟩ := List.exists_cons_of_ne_nil hne
  rw [List.length_drop, List.length_cons, AllPass]

theorem allPass_nil (rounds : List Round) : AllPass c rounds 0 := by
  cases rounds <;> exact trivial

theorem writeLoop_nil (rounds : List Round) :
    writeLoop c rounds [] x queued = some ⟨x, queued⟩ := by
  cases rounds <;> rfl

/-- All that is left is queued, and the last chunk of it ends the transfer. -/
theorem writeLoop_of_allPass : ∀ {rounds : List Round} {buf : Bytes} (x : ℕ) (queued : List Tre),
    AllPass c rounds buf.length → ∃ more, writeLoop c rounds buf x queued
        = some ⟨(x + buf.length : ℕ), queued ++ more⟩
      ∧ bytesOfQueued more = buf ∧ (∀ tre ∈ more, tre.Flagged) ∧ Ends more
  | rounds, [], x, queued, _ => by
    refine ⟨[], ?_, rfl, fun _ h => absurd h List.not_mem_nil, fun _ h => by simp at h⟩
    rw [writeLoop_nil, List.append_nil]
    rfl
  | [], b :: bs, x, queued, h => absurd h not_false
  | r :: rounds, b :: bs, x, queued, h => by
    have hne : b :: bs ≠ [] := List.cons_ne_nil b bs
    generalize hbuf : b :: bs = buf at h hne ⊢
    obtain ⟨hpass, hrest⟩ := (allPass_cons hne).1 h
    have hlen : xferSize c buf.length ≤ buf.length := Nat.min_le_left _ _
    rcases writeLoop_cons r rounds x queued hne
      with ⟨hno, -⟩ | ⟨hfault, -⟩ | ⟨-, hw, hloop⟩
    · exact absurd hpass hno
    · exact absurd hpass.2.1 (Nat.not_le_of_lt hfault.2)
    · obtain ⟨more, hrun, hbytes, hflag, hends⟩ := writeLoop_of_allPass
        (x + xferSize c buf.length) (queued ++ [r.tre c buf]) hrest
      refine ⟨r.tre c buf :: more, ?_, ?_, ?_, ?_⟩
      · rw [hloop, hrun, List.length_drop, List.append_assoc, Nat.add_assoc,
          Nat.add_sub_cancel' hlen]
        rfl
      · change (r.tre c buf).buf ++ bytesOfQueued more = buf
        rw [hbytes]
        exact List.take_append_drop _ _
      · intro tre htre
        rcases List.mem_cons.1 htre with rfl | htre
        · exact r.flagged_tre buf
        · exact hflag tre htre
      · rcases more with _ | ⟨t, ts⟩
        · -- nothing is left after this chunk
          intro tre htre
          cases htre
          have hnil : buf.drop (xferSize c buf.length) = [] := hbytes.symm
          exact (Round.eot_tre hw).2 (.inr (List.drop_eq_nil_iff.1 hnil))
        · exact hends

/-- After chunks have been queued, only what could not be copied of the second one can be what the
call has to report. -/
theorem right_iff_of_queued (whole : Bytes) : ∀ {rounds : List Round} {buf : Bytes} {x : ℕ}
    {queued : List Tre} {w : Written}, writeLoop c rounds buf x queued = some w →
    ¬ AllPass c rounds buf.length → c.mtu ≤ (bytesOfQueued queued).length →
    (∀ tre ∈ queued, tre.Flagged) → bytesOfQueued queued ++ buf = whole →
      (w.Right whole ↔ (bytesOfQueued queued).length = c.mtu ∧ Ends queued
        ∧ ∃ r ∈ rounds.head?, r.Faults c buf.length ∧ r.readable = 0 ∧ c.mtu ≤ buf.length)
  | rounds, [], x, queued, w, _, hnot, _, _, _ => absurd (allPass_nil rounds) hnot
  | [], b :: bs, x, queued, w, hw, _, _, _, _ => by cases hw
  | r :: rounds, b :: bs, x, queued, w, hw, hnot, hq, hflag, hwhole => by
    have hne : b :: bs ≠ [] := List.cons_ne_nil b bs
    generalize hbuf : b :: bs = buf at hw hnot hne hwhole ⊢
    have hmtu := c.mtu_pos
    have hxfer := xferSize_le (c := c) buf.length
    simp only [List.head?_cons, Option.mem_def, Option.some.injEq, exists_eq_left']
    rcases writeLoop_cons r rounds x queued hne
      with ⟨-, hno, e, he, hloop⟩ | ⟨hfault, hloop⟩ | ⟨hpass, hwait, hloop⟩
    · cases hloop.symm.trans hw
      refine iff_of_false (fun h => ?_) fun h => hno h.2.2.1
      have hnil : bytesOfQueued queued = [] := h.nothing he
      rw [hnil, List.length_nil] at hq
      omega
    · cases hloop.symm.trans hw
      have hread := hfault.2
      constructor
      · intro h
        obtain ⟨hlen, -⟩ := h.reported (Int.natCast_nonneg _)
        rw [Written.sent_mk] at hlen
        have hlen' := Int.ofNat.inj hlen
        have hmin : xferSize c buf.length ≤ buf.length := Nat.min_le_left _ _
        exact ⟨by omega, (ended_iff hflag).1 h.ended, hfault, by omega, by omega⟩
      · rintro ⟨hlen, hends, -, hzero, hle⟩
        have hfull : xferSize c buf.length = c.mtu := Nat.min_eq_right hle
        refine ⟨fun _ => ⟨?_, ?_⟩, fun hneg => ?_, (ended_iff hflag).2 hends⟩
        · rw [Written.sent_mk, hlen, hzero, hfull, Nat.sub_zero]
        · exact ⟨buf, hwhole⟩
        · exact absurd hneg (Int.not_lt.2 (Int.natCast_nonneg _))
    · rw [hloop] at hw
      have hxpos : 0 < xferSize c buf.length := xferSize_pos (List.length_pos_of_ne_nil hne)
      have htake : (r.tre c buf).buf.length = xferSize c buf.length :=
        List.length_take_of_le (Nat.min_le_left _ _)
      have hlonger : (bytesOfQueued (queued ++ [r.tre c buf])).length
          = (bytesOfQueued queued).length + xferSize c buf.length := by
        rw [bytesOfQueued_push, List.length_append, htake]
      have hrest := right_iff_of_queued whole hw (fun h => hnot ((allPass_cons hne).2 ⟨hpass, h⟩))
        (by omega) ?_ ?_
      · rw [hrest, hlonger]
        refine iff_of_false (fun h => ?_) fun h => ?_
        · omega
        · exact absurd hpass.2.1 (Nat.not_le_of_lt h.2.2.1.2)
      · intro tre htre
        rcases List.mem_append.1 htre with htre | htre
        · exact hflag tre htre
        · rw [List.mem_singleton.1 htre]
          exact r.flagged_tre buf
      · rw [bytesOfQueued_push, List.append_assoc, ← hwhole]
        exact congrArg (_ ++ ·) (List.take_append_drop _ _)

/-- One round for each chunk is enough. -/
theorem writeLoop_returns : ∀ {rounds : List Round} {buf : Bytes} (x : ℕ) (queued : List Tre),
    buf.length ≤ c.mtu * rounds.length → ∃ w, writeLoop c rounds buf x queued = some w
  | rounds, [], x, queued, _ => ⟨_, writeLoop_nil rounds⟩
  | [], b :: bs, x, queued, h => absurd h (Nat.not_succ_le_zero _)
  | r :: rounds, b :: bs, x, queued, h => by
    rcases writeLoop_cons (c := c) r rounds x queued (List.cons_ne_nil b bs)
      with ⟨-, -, e, -, hloop⟩ | ⟨-, hloop⟩ | ⟨-, -, hloop⟩
    · exact ⟨_, hloop⟩
    · exact ⟨_, hloop⟩
    · rw [hloop]
      refine writeLoop_returns _ _ ?_
      rw [show (r :: rounds).length = rounds.length + 1 from rfl, Nat.mul_succ] at h
      rw [List.length_drop]
      unfold xferSize
      omega

theorem Written.right_error {e : ℤ} (he : e < 0) (whole : Bytes) :
    (Written.mk e []).Right whole where
  reported h := absurd h (Int.not_le.2 he)
  nothing _ := rfl
  ended pre tre post h := absurd h (by simp)

theorem right_of_allPass {w : Written} (hall : AllPass c rounds buf.length)
    (hw : writeLoop c rounds buf 0 [] = some w) : w.Right buf := by
  obtain ⟨more, hrun, hbytes, hflag, hends⟩ := writeLoop_of_allPass 0 [] hall
  cases hrun.symm.trans hw
  rw [Nat.zero_add, List.nil_append]
  have hsent : (Written.mk (buf.length : ℕ) more).sent = buf := hbytes
  refine ⟨fun _ => ?_, fun hneg => ?_, (ended_iff hflag).2 hends⟩
  · rw [hsent]
    exact ⟨rfl, List.prefix_rfl⟩
  · exact absurd hneg (Int.not_lt.2 (Int.natCast_nonneg _))

/-- What could not be copied of the first chunk is reported, and nothing has been queued. -/
theorem not_right_of_faults {r : Round} (hfault : r.Faults c buf.length) (whole : Bytes) :
    ¬ (Written.mk (xferSize c buf.length - r.readable : ℕ) []).Right whole := by
  intro h
  obtain ⟨hlen, -⟩ := h.reported (Int.natCast_nonneg _)
  have hlen' := Int.ofNat.inj hlen
  have hread := hfault.2
  change 0 = _ at hlen'
  omega

/-- The first chunk is queued, and not all the others are. -/
theorem right_iff_of_passes {r : Round} (hne : buf ≠ []) (hpass : r.Passes c buf.length)
    (hwait : r.waited ≠ .exit) (hall : ¬ AllPass c (r :: rounds) buf.length) {w : Written}
    (hw : writeLoop c rounds (buf.drop (xferSize c buf.length)) (0 + xferSize c buf.length)
      ([] ++ [r.tre c buf]) = some w) :
    w.Right buf ↔ FaultsEven c (r :: rounds) buf.length := by
  have hrest : ¬ AllPass c rounds (buf.drop (xferSize c buf.length)).length :=
    fun h => hall ((allPass_cons hne).2 ⟨hpass, h⟩)
  have hmore : c.mtu < buf.length := by
    by_contra hle
    have hdrop : buf.drop (xferSize c buf.length) = [] := by
      refine List.drop_eq_nil_of_le ?_
      unfold xferSize
      omega
    exact hrest (hdrop ▸ allPass_nil rounds)
  have hfull : xferSize c buf.length = c.mtu := Nat.min_eq_right (Nat.le_of_lt hmore)
  have htake : bytesOfQueued ([] ++ [r.tre c buf]) = buf.take c.mtu := by
    rw [bytesOfQueued_push, ← hfull]
    rfl
  have hlen : (bytesOfQueued ([] ++ [r.tre c buf])).length = c.mtu := by
    rw [htake, List.length_take_of_le (Nat.le_of_lt hmore)]
  have hends : Ends ([] ++ [r.tre c buf]) ↔ r.Single := by
    change (∀ tre ∈ some (r.tre c buf), tre.eot) ↔ _
    simp only [Option.mem_def, Option.some.injEq, forall_eq']
    rw [Round.eot_tre hwait, or_iff_left (by omega)]
  rw [right_iff_of_queued buf hw hrest (Nat.le_of_eq hlen.symm), hends, hfull, List.length_drop]
  · constructor
    · rintro ⟨-, hsingle, r', hr', hfault, hzero, hle⟩
      obtain ⟨rest, rfl⟩ := List.head?_eq_some_iff.1 hr'
      exact ⟨r, r', rest, rfl, by omega, hpass, hsingle, hfault, hzero⟩
    · rintro ⟨r₁, r', rest, h, hle, -, hsingle, hfault, hzero⟩
      obtain ⟨rfl, rfl⟩ := List.cons.inj h
      exact ⟨hlen, hsingle, r', rfl, hfault, hzero, by omega⟩
  · intro tre htre
    rw [List.mem_singleton.1 htre]
    exact r.flagged_tre buf
  · rw [htake, hfull]
    exact List.take_append_drop _ _

/-- From the start of the loop. -/
theorem right_iff_of_loop (hne : buf ≠ []) {w : Written}
    (hw : writeLoop c rounds buf 0 [] = some w) :
    w.Right buf ↔ AllPass c rounds buf.length ∨ LeavesFirst c rounds buf.length
      ∨ FaultsEven c rounds buf.length := by
  by_cases hall : AllPass c rounds buf.length
  · exact iff_of_true (right_of_allPass hall hw) (.inl hall)
  rcases rounds with _ | ⟨r, rounds⟩
  · obtain ⟨b, bs, rfl⟩ := List.exists_cons_of_ne_nil hne
    cases hw
  have hleaves : LeavesFirst c (r :: rounds) buf.length
      ↔ ¬ r.Passes c buf.length ∧ ¬ r.Faults c buf.length := by
    change (∃ r₁ ∈ some r, _) ↔ _
    simp only [Option.mem_def, Option.some.injEq, exists_eq_left']
  rw [or_iff_right hall, hleaves]
  rcases writeLoop_cons r rounds 0 [] hne
    with ⟨hpass, hfault, e, he, hloop⟩ | ⟨hfault, hloop⟩ | ⟨hpass, hwait, hloop⟩
  · cases hloop.symm.trans hw
    exact iff_of_true (Written.right_error he buf) (.inl ⟨hpass, hfault⟩)
  · cases hloop.symm.trans hw
    refine iff_of_false (not_right_of_faults hfault buf) ?_
    rintro (h | ⟨r', r'', rest, h, -, hpass, -⟩)
    · exact h.2 hfault
    · obtain ⟨rfl, rfl⟩ := List.cons.inj h
      exact absurd hpass.2.1 (Nat.not_le_of_lt hfault.2)
  · rw [or_iff_right fun h => absurd hpass h.1]
    exact right_iff_of_passes hne hpass hwait hall (hloop.symm.trans hw)

/-- What the call reports is right where it returns before the loop, all that it was given is
queued, or it leaves before a chunk is queued and not because that cannot be copied; and in one case
besides, in which what could not be copied happens to be as long as what was queued. -/
theorem mhiUciWrite_right_iff (rxError : ℕ) (enabled : Bool) (rounds : List Round)
    (buf : Option Bytes) (hlong : (buf.getD []).length ≤ c.mtu * rounds.length) :
    ∃ w, mhiUciWrite c rxError enabled rounds buf = some w
      ∧ (w.Right (buf.getD []) ↔ buf.getD [] = [] ∨ rxError ≠ 0 ∨ enabled = false
        ∨ AllPass c rounds (buf.getD []).length ∨ LeavesFirst c rounds (buf.getD []).length
        ∨ FaultsEven c rounds (buf.getD []).length) := by
  rcases buf with _ | _ | ⟨b, bs⟩
  · exact ⟨_, rfl, iff_of_true (Written.right_error (by decide) _) (.inl rfl)⟩
  · exact ⟨_, rfl, iff_of_true (Written.right_error (by decide) _) (.inl rfl)⟩
  · rw [Option.getD_some] at hlong ⊢
    have hne : b :: bs ≠ [] := List.cons_ne_nil b bs
    unfold mhiUciWrite
    dsimp only
    by_cases hrx : rxError ≠ 0
    · rw [if_pos hrx]
      exact ⟨_, rfl, iff_of_true (Written.right_error (by decide) _) (.inr (.inl hrx))⟩
    · rw [if_neg hrx]
      cases enabled with
      | false =>
        exact ⟨_, rfl, iff_of_true (Written.right_error (by decide) _) (.inr (.inr (.inl rfl)))⟩
      | true =>
        obtain ⟨w, hw⟩ := writeLoop_returns 0 [] hlong
        refine ⟨w, (if_neg (by simp)).trans hw, ?_⟩
        rw [right_iff_of_loop hne hw, or_iff_right hne, or_iff_right hrx,
          or_iff_right (show ¬ true = false from Bool.noConfusion)]

/-- A round in which the chunk is queued, with one or two free descriptors. -/
def passing (nrAvail : ℕ) : Round where
  nrAvail := nrAvail
  waited := .avail nrAvail
  allocated := true
  readable := 2
  enabled := true
  queueing := ⟨false, false, false⟩

/-- Chunks of two bytes. -/
def twoBytes : WriteCfg where
  mtu := 2
  nonblock := true
  mtu_pos := Nat.two_pos

theorem twoBytes_right : ∃ w,
    mhiUciWrite twoBytes 0 true [passing 2, passing 1] (some [1, 2, 3]) = some w
      ∧ w.Right [1, 2, 3] := by
  obtain ⟨w, hw, hright⟩ := mhiUciWrite_right_iff (c := twoBytes) 0 true [passing 2, passing 1]
    (some [1, 2, 3]) (by decide)
  refine ⟨w, hw, hright.2 (.inr (.inr (.inr (.inl ?_))))⟩
  exact ⟨by decide, by decide, trivial⟩

/-- No descriptor is free for the second chunk, or it cannot be copied. -/
theorem twoBytes_wrong :
    mhiUciWrite twoBytes 0 true [passing 2, passing 0] (some [1, 2, 3])
        = some ⟨- EAGAIN, [mhiGenTre [1, 2] .mhiChain]⟩
      ∧ ¬ (Written.mk (- EAGAIN) [mhiGenTre [1, 2] .mhiChain]).Right [1, 2, 3]
      ∧ mhiUciWrite twoBytes 0 true [passing 2, { passing 1 with readable := 0 }] (some [1, 2, 3])
        = some ⟨1, [mhiGenTre [1, 2] .mhiChain]⟩
      ∧ ¬ (Written.mk 1 [mhiGenTre [1, 2] .mhiChain]).Right [1, 2, 3] :=
  ⟨by decide, fun h => absurd (h.nothing (by decide)) (by decide), by decide,
    fun h => absurd (h.reported (by decide)).1 (by decide)⟩

end Uci

end BananaWrt
