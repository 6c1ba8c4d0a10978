import BananaWrt.MhiMbim

/-!
# The MBIM receive loop stays in bounds and ends

The offsets of the NDPs come from the modem, and nothing makes them grow: the loop ends unless an
NDP of the chain leads back to itself. The table of an NDP is only known to be no longer than the
block, so that one near the end reaches past it, and the test of the session lets one number too
many pass, whose index is -1. Apart from that all is in bounds (`mbimInBounds_iff`).
-/

namespace BananaWrt

namespace Mbim

open Bytes

variable {d : Dev} {alloc : ℕ → Bool} {b : Bytes}

namespace Out

@[simp] theorem reads_append (o o' : Out) : (o ++ o').reads = o.reads ++ o'.reads := rfl

@[simp] theorem nets_append (o o' : Out) : (o ++ o').nets = o.nets ++ o'.nets := rfl

@[simp] theorem pkts_append (o o' : Out) : (o ++ o').pkts = o.pkts ++ o'.pkts := rfl

@[simp] theorem nets_ofReads (reads : List (ℕ × ℕ)) : (ofReads reads).nets = [] := rfl

@[simp] theorem pkts_ofReads (reads : List (ℕ × ℕ)) : (ofReads reads).pkts = [] := rfl

end Out

/-- The reads lie in the block. -/
def Inside (b : Bytes) (out : Out) : Prop := ∀ r ∈ out.reads, r.1 + r.2 ≤ b.length

theorem inside_none : Inside b .none := fun _ hr => absurd hr List.not_mem_nil

theorem inside_append {out out' : Out} : Inside b (out ++ out') ↔ Inside b out ∧ Inside b out' := by
  unfold Inside
  simp only [Out.reads_append, List.mem_append]
  exact ⟨fun h => ⟨fun r hr => h r (Or.inl hr), fun r hr => h r (Or.inr hr)⟩,
    fun h r hr => hr.elim (h.1 r) (h.2 r)⟩

theorem inside_ofReads_cons {r : ℕ × ℕ} {rs : List (ℕ × ℕ)} :
    Inside b (.ofReads (r :: rs)) ↔ r.1 + r.2 ≤ b.length ∧ Inside b (.ofReads rs) :=
  List.forall_mem_cons

section Table

variable {o idx : ℕ}

theorem passes_succ {x : ℕ} :
    Passes d b o (x + 1) ↔ Passes d b o x ∧ ¬ IsEnd (dpe b o x) ∧ d.Good b (dpe b o x) := by
  unfold Passes
  constructor
  · intro h
    exact ⟨fun y hy => h y (by omega), h x (Nat.lt_succ_self x)⟩
  · rintro ⟨h, hx⟩ y hy
    rcases Nat.lt_succ_iff_lt_or_eq.1 hy with hlt | rfl
    · exact h y hlt
    · exact hx

/-- What the loop does with an entry: it ends, gives up, or queues the entry and goes on. -/
theorem dpeLoop_cases (alloc : ℕ → Bool) (b : Bytes) (o idx n x k : ℕ) :
    (IsEnd (dpe b o x) ∧ dpeLoop d alloc b o idx (n + 1) x k
        = (.ofReads [(o + sizeofNdp16 + sizeofDpe16 * x, sizeofDpe16)], false))
      ∨ (¬ IsEnd (dpe b o x) ∧ (alloc k → ¬ d.Good b (dpe b o x))
          ∧ (dpeLoop d alloc b o idx (n + 1) x k).2 = true
          ∧ ∃ rs, (∀ r ∈ rs, d.Fits b (dpe b o x) ∧ r = ((dpe b o x).1, 1))
            ∧ (dpeLoop d alloc b o idx (n + 1) x k).1
              = .ofReads ((o + sizeofNdp16 + sizeofDpe16 * x, sizeofDpe16) :: rs))
      ∨ (¬ IsEnd (dpe b o x) ∧ d.Good b (dpe b o x) ∧ ∃ protocol,
          Qmap.protocolOf (u8 b (dpe b o x).1) = some protocol
            ∧ dpeLoop d alloc b o idx (n + 1) x k
              = (⟨[(o + sizeofNdp16 + sizeofDpe16 * x, sizeofDpe16), ((dpe b o x).1, 1), dpe b o x],
                  [], [d.packet idx protocol ((b.drop (dpe b o x).1).take (dpe b o x).2)]⟩
                ++ (dpeLoop d alloc b o idx n (x + 1) (k + 1)).1,
              (dpeLoop d alloc b o idx n (x + 1) (k + 1)).2)) := by
  rw [dpeLoop]
  dsimp only
  by_cases hend : IsEnd (dpe b o x)
  · rw [if_pos hend]
    exact Or.inl ⟨hend, rfl⟩
  rw [if_neg hend]
  by_cases hfit : ¬ d.Fits b (dpe b o x) ∨ ¬ alloc k
  · rw [if_pos hfit]
    refine Or.inr (Or.inl ⟨hend, fun halloc hgood => ?_, rfl, [], by simp, rfl⟩)
    exact hfit.elim (fun h => h hgood.1) (fun h => h halloc)
  rw [if_neg hfit]
  have hfits : d.Fits b (dpe b o x) := by
    by_contra h
    exact hfit (Or.inl h)
  rcases hproto : Qmap.protocolOf (u8 b (dpe b o x).1) with _ | protocol
  · refine Or.inr (Or.inl ⟨hend, fun _ hgood => ?_, rfl, [((dpe b o x).1, 1)], ?_, rfl⟩)
    · have := hgood.2
      rw [hproto] at this
      cases this
    · intro r hr
      exact ⟨hfits, List.mem_singleton.1 hr⟩
  · exact Or.inr (Or.inr ⟨hend, ⟨hfits, by rw [hproto]; rfl⟩, protocol, rfl, rfl⟩)

/-- The entries from `x` on are read inside the block, if those are that the loop may come to. -/
theorem dpeLoop_inside : ∀ (n x k : ℕ), Passes d b o x →
    (∀ y < x + n, Passes d b o y →
      o + sizeofNdp16 + sizeofDpe16 * y + sizeofDpe16 ≤ b.length) →
      Inside b (dpeLoop d alloc b o idx n x k).1
  | 0, _, _, _, _ => inside_none
  | n + 1, x, k, hx, hin => by
    have hpos := hin x (by omega) hx
    rcases dpeLoop_cases (d := d) alloc b o idx n x k with
      ⟨-, heq⟩ | ⟨hend, -, -, rs, hrs, heq⟩ | ⟨hend, hgood, protocol, -, heq⟩ <;> rw [heq]
    · exact inside_ofReads_cons.2 ⟨hpos, inside_none⟩
    · refine inside_ofReads_cons.2 ⟨hpos, fun r hr => ?_⟩
      obtain ⟨hfits, rfl⟩ := hrs r hr
      have hone : ¬ IsEnd (dpe b o x) := hend
      have := hfits.1
      unfold IsEnd at hone
      dsimp only
      omega
    · have hone : ¬ IsEnd (dpe b o x) := hend
      have hlen := hgood.1.1
      unfold IsEnd at hone
      refine inside_append.2 ⟨?_, ?_⟩
      · intro r hr
        simp only [List.mem_cons, List.not_mem_nil, or_false] at hr
        rcases hr with rfl | rfl | rfl
        · exact hpos
        · dsimp only
          omega
        · exact hlen
      · refine dpeLoop_inside n (x + 1) (k + 1) (passes_succ.2 ⟨hx, hend, hgood⟩) fun y hy => ?_
        exact hin y (by omega)

theorem dpeLoop_nets (d : Dev) (alloc : ℕ → Bool) (b : Bytes) (o idx : ℕ) :
    ∀ (n x k : ℕ), (dpeLoop d alloc b o idx n x k).1.nets = []
  | 0, _, _ => rfl
  | n + 1, x, k => by
    rcases dpeLoop_cases (d := d) alloc b o idx n x k with
      ⟨-, heq⟩ | ⟨-, -, -, rs, -, heq⟩ | ⟨-, -, protocol, -, heq⟩ <;> rw [heq]
    · rfl
    · rfl
    · exact dpeLoop_nets d alloc b o idx n (x + 1) (k + 1)

/-- A loop that does not give up has met no bad entry. -/
theorem clean_of_dpeLoop : ∀ (n x k : ℕ), (dpeLoop d alloc b o idx n x k).2 = false →
    ∀ y, x ≤ y → y < x + n → Passes d b o y → IsEnd (dpe b o y) ∨ d.Good b (dpe b o y)
  | 0, x, k, _, y, hxy, hy, _ => by omega
  | n + 1, x, k, h, y, hxy, hy, hp => by
    rcases dpeLoop_cases (d := d) alloc b o idx n x k with
      ⟨hend, -⟩ | ⟨-, -, htrue, -⟩ | ⟨hend, hgood, protocol, -, heq⟩
    · rcases Nat.eq_or_lt_of_le hxy with rfl | hlt
      · exact Or.inl hend
      · exact absurd hend (hp x hlt).1
    · rw [h] at htrue
      cases htrue
    · rw [heq] at h
      rcases Nat.eq_or_lt_of_le hxy with rfl | hlt
      · exact Or.inr hgood
      · exact clean_of_dpeLoop n (x + 1) (k + 1) h y hlt (by omega) hp

/-- With every allocation, a loop that meets no bad entry does not give up. -/
theorem dpeLoop_of_clean : ∀ (n x k : ℕ), Passes d b o x →
    (∀ y, x ≤ y → y < x + n → Passes d b o y → IsEnd (dpe b o y) ∨ d.Good b (dpe b o y)) →
      (dpeLoop d (fun _ => true) b o idx n x k).2 = false
  | 0, _, _, _, _ => rfl
  | n + 1, x, k, hx, hclean => by
    rcases dpeLoop_cases (d := d) (fun _ => true) b o idx n x k with
      ⟨-, heq⟩ | ⟨hend, hbad, -⟩ | ⟨hend, hgood, protocol, -, heq⟩
    · rw [heq]
    · rcases hclean x (Nat.le_refl x) (by omega) hx with hend' | hgood
      · exact absurd hend' hend
      · exact absurd hgood (hbad rfl)
    · rw [heq]
      refine dpeLoop_of_clean n (x + 1) (k + 1) (passes_succ.2 ⟨hx, hend, hgood⟩) fun y hy hn => ?_
      exact hclean y (by omega) (by omega)

/-- With every allocation, each entry is read before which all are queued. -/
theorem mem_reads_dpeLoop : ∀ (n x k y : ℕ), x ≤ y → y < x + n → Passes d b o y →
    (o + sizeofNdp16 + sizeofDpe16 * y, sizeofDpe16)
      ∈ (dpeLoop d (fun _ => true) b o idx n x k).1.reads
  | 0, x, k, y, hxy, hy, _ => by omega
  | n + 1, x, k, y, hxy, hy, hp => by
    rcases dpeLoop_cases (d := d) (fun _ => true) b o idx n x k with
      ⟨hend, heq⟩ | ⟨hend, hbad, -, rs, -, heq⟩ | ⟨hend, hgood, protocol, -, heq⟩ <;>
      rw [heq] <;> rcases Nat.eq_or_lt_of_le hxy with rfl | hlt
    · exact List.mem_cons_self
    · exact absurd hend (hp x hlt).1
    · exact List.mem_cons_self
    · exact absurd (hp x hlt).2 (hbad rfl)
    · exact List.mem_append_left _ List.mem_cons_self
    · exact List.mem_append_right _ (mem_reads_dpeLoop n (x + 1) (k + 1) y hlt (by omega) hp)

end Table

section Ndp

variable {o k : ℕ}

theorem ndpIter_of_not_taken (alloc : ℕ → Bool) (k : ℕ) (h : ¬ Taken d b o) :
    ∃ rs, ndpIter d alloc b o k = (.ofReads rs, none) ∧ Inside b (.ofReads rs) := by
  unfold ndpIter
  by_cases hlen : b.length < o + sizeofNdp16
  · rw [if_pos hlen]
    exact ⟨[], rfl, inside_none⟩
  have hlen' : o + 8 ≤ b.length := Nat.not_lt.1 hlen
  have h46 : Inside b (.ofReads [(o + 4, 2)]) :=
    inside_ofReads_cons.2 ⟨by dsimp only; omega, inside_none⟩
  have h04 : Inside b (.ofReads [(o + 4, 2), (o, 4)]) :=
    inside_ofReads_cons.2 ⟨by dsimp only; omega, inside_ofReads_cons.2
      ⟨by dsimp only; omega, inside_none⟩⟩
  rw [if_neg hlen]
  by_cases hndp : ndpLength b o < 0x10 ∨ b.length < sizeofNdp16 + nframes b o * sizeofDpe16
  · rw [if_pos hndp]
    exact ⟨_, rfl, h46⟩
  rw [if_neg hndp]
  rcases htci : tci b o with _ | t
  · exact ⟨_, rfl, h04⟩
  · have hun : d.Unsupported t := by
      by_contra hsup
      refine h ⟨hlen', ?_, ?_, t, htci, hsup⟩ <;> omega
    exact ⟨_, if_pos hun, h04⟩

theorem ndpIter_of_taken (alloc : ℕ → Bool) (k : ℕ) (h : Taken d b o) :
    ∃ t table, tci b o = some t ∧ ¬ d.Unsupported t
      ∧ table = dpeLoop d alloc b o (d.netIdx t) (nframes b o) 0 k
      ∧ (ndpIter d alloc b o k).1.nets = [d.netIdx t]
      ∧ (ndpIter d alloc b o k).1.pkts = table.1.pkts
      ∧ (Inside b (ndpIter d alloc b o k).1 ↔ Inside b table.1)
      ∧ (∀ r ∈ table.1.reads, r ∈ (ndpIter d alloc b o k).1.reads)
      ∧ (ndpIter d alloc b o k).2 = if table.2 then none else some (nextNdpIndex b o) := by
  obtain ⟨hlen, hlength, hframes, t, htci, hsup⟩ := h
  have hlen' : o + 8 ≤ b.length := hlen
  have hnets := dpeLoop_nets d alloc b o (d.netIdx t) (nframes b o) 0 k
  have hndp : ¬ (ndpLength b o < 0x10 ∨ b.length < sizeofNdp16 + nframes b o * sizeofDpe16) := by
    omega
  have hhead : Inside b ⟨[(o + 4, 2), (o, 4)], [d.netIdx t], []⟩ := by
    intro r hr
    simp only [List.mem_cons, List.not_mem_nil, or_false] at hr
    rcases hr with rfl | rfl <;> dsimp only <;> omega
  have hnext : Inside b (.ofReads [(o + 6, 2)]) :=
    inside_ofReads_cons.2 ⟨by dsimp only; omega, inside_none⟩
  refine ⟨t, _, htci, hsup, rfl, ?_⟩
  unfold ndpIter
  rw [if_neg (Nat.not_lt.2 hlen), if_neg hndp, htci]
  dsimp only
  rw [if_neg hsup]
  rcases htable : dpeLoop d alloc b o (d.netIdx t) (nframes b o) 0 k with ⟨out, bad⟩
  rw [htable] at hnets
  change out.nets = [] at hnets
  cases bad with
  | true =>
    simp only [↓reduceIte, Out.nets_append, hnets, List.append_nil, Out.pkts_append,
      List.nil_append, inside_append, hhead, true_and, Out.reads_append]
    exact ⟨fun r hr => List.mem_append_right _ hr, trivial⟩
  | false =>
    simp only [Bool.false_eq_true, ↓reduceIte, Out.nets_append, hnets, List.append_nil,
      Out.nets_ofReads, Out.pkts_append, List.nil_append, Out.pkts_ofReads, inside_append, hhead,
      true_and, hnext, and_true, Out.reads_append]
    exact fun r hr => List.mem_append_left _ (List.mem_append_right _ hr)

theorem tci_lt {t : ℕ} (h : tci b o = some t) : t < 512 := by
  have hbyte := u8_lt b (o + 3)
  unfold tci at h
  split_ifs at h <;> cases h <;> omega

/-- The test of the session lets one number pass that is no session, if there is more than one. -/
theorem netIdx_lt_iff {t : ℕ} (ht : t < 512) (hsup : ¬ d.Unsupported t) :
    d.netIdx t < d.qmapMode ↔ (1 < d.qmapMode → t ≠ d.mbimMuxId) := by
  have hmux := d.muxId_lt
  have hone := d.one_le
  have height := d.le_eight
  unfold Dev.Unsupported at hsup
  unfold Dev.netIdx
  split_ifs with hmode
  · exact iff_of_true (by omega) (by omega)
  · omega

/-- Where the handler goes on, the chain does. -/
theorem link_of_ndpIter {o' : ℕ} (h : (ndpIter d alloc b o k).2 = some o') (ho' : o' ≠ 0) :
    Links.Link (nextNdp d b) o o' := by
  have htaken : Taken d b o := by
    by_contra hnot
    obtain ⟨rs, heq, -⟩ := ndpIter_of_not_taken alloc k hnot
    rw [heq] at h
    cases h
  obtain ⟨t, table, -, -, htable, -, -, -, -, hgo⟩ := ndpIter_of_taken alloc k htaken
  rw [hgo] at h
  split_ifs at h with hbad
  cases h
  rw [htable] at hbad
  have hclean : Clean d b o := fun x hx hp =>
    clean_of_dpeLoop _ 0 k (Bool.eq_false_iff.2 hbad) x (Nat.zero_le x) (by omega) hp
  exact if_pos ⟨htaken, hclean, ho'⟩

theorem passes_zero : Passes d b o 0 := fun y hy => absurd hy (Nat.not_lt_zero y)

/-- Where the chain goes on, the handler does, with every allocation. -/
theorem ndpIter_of_link {o' : ℕ} (k : ℕ) (h : Links.Link (nextNdp d b) o o') :
    (ndpIter d (fun _ => true) b o k).2 = some o' := by
  unfold Links.Link nextNdp at h
  split_ifs at h with hnext
  obtain ⟨htaken, hclean, -⟩ := hnext
  obtain ⟨t, table, -, -, htable, -, -, -, -, hgo⟩ := ndpIter_of_taken (fun _ => true) k htaken
  have hbad : table.2 = false := by
    rw [htable]
    exact dpeLoop_of_clean _ 0 k passes_zero fun y _ hy hp => hclean y (by omega) hp
  rw [hgo, hbad, ← h]
  rfl

theorem ne_zero_of_link {o' : ℕ} (h : Links.Link (nextNdp d b) o o') : o' ≠ 0 := by
  unfold Links.Link nextNdp at h
  split_ifs at h with hnext
  cases h
  exact hnext.2.2

end Ndp

theorem firstNdp_lt (d : Dev) (b : Bytes) : firstNdp d b < 2 ^ 16 := by
  unfold firstNdp Dev.raw16
  split_ifs
  · exact le16_lt b 10
  · exact be16_lt b 10

theorem ndpLoop_succ {o : ℕ} (ho : o ≠ 0) (fuel k : ℕ) :
    ndpLoop d alloc b (fuel + 1) o k = match ndpIter d alloc b o k with
      | (out, none) => some out
      | (out, some o') => (ndpLoop d alloc b fuel o' (k + out.pkts.length)).map (out ++ ·) :=
  if_neg ho

/-- A straight chain comes to an end. -/
theorem ndpLoop_ends (alloc : ℕ → Bool) {o : ℕ} (hlt : o < 2 ^ 16) (h : Links.Straight (nextNdp d b) o) :
    ∀ k, ∃ fuel, (ndpLoop d alloc b fuel o k).isSome := by
  refine h.induct (P := fun o => ∀ k, ∃ fuel, (ndpLoop d alloc b fuel o k).isSome)
    (S := {o | o < 2 ^ 16}) (Set.finite_lt_nat _) (fun a _ c hac => ?_) (fun a _ ih k => ?_) hlt
  · unfold Links.Link nextNdp at hac
    split_ifs at hac
    cases hac
    exact le16_lt b _
  · by_cases ha : a = 0
    · exact ⟨1, by rw [ha]; rfl⟩
    · rcases hiter : ndpIter d alloc b a k with ⟨out, _ | o'⟩
      · exact ⟨1, by rw [ndpLoop_succ ha, hiter]; rfl⟩
      · have hend : ∃ fuel, (ndpLoop d alloc b fuel o' (k + out.pkts.length)).isSome := by
          by_cases ho' : o' = 0
          · exact ⟨1, by rw [ho']; rfl⟩
          · exact ih o' (link_of_ndpIter (by rw [hiter]) ho') _
        obtain ⟨fuel, hfuel⟩ := hend
        exact ⟨fuel + 1, by rw [ndpLoop_succ ha, hiter]; simpa using hfuel⟩

/-- A chain that is not straight is followed without end, if every allocation succeeds. -/
theorem ndpLoop_eq_none : ∀ (fuel : ℕ) {o : ℕ}, o ≠ 0 → ¬ Links.Straight (nextNdp d b) o →
    ∀ k, ndpLoop d (fun _ => true) b fuel o k = none
  | 0, _, _, _, _ => rfl
  | fuel + 1, o, ho, h, k => by
    obtain ⟨o', hlink, h'⟩ := Links.exists_link h
    have hiter := ndpIter_of_link k hlink
    rw [ndpLoop_succ ho]
    rcases heq : ndpIter d (fun _ => true) b o k with ⟨out, _ | o''⟩ <;> rw [heq] at hiter
    · cases hiter
    · cases hiter
      dsimp only
      rw [ndpLoop_eq_none fuel (ne_zero_of_link hlink) h', Option.map_none]

/-- What is in bounds in each NDP of the chain is in bounds all along. -/
theorem ndpLoop_inv {P : Out → Prop} (hnone : P .none)
    (happend : ∀ out out', P out → P out' → P (out ++ out')) {first : ℕ}
    (hiter : ∀ o k, Links.Reaches (nextNdp d b) first o → P (ndpIter d alloc b o k).1) :
    ∀ (fuel : ℕ) {o : ℕ}, (o ≠ 0 → Links.Reaches (nextNdp d b) first o) →
      ∀ {k out}, ndpLoop d alloc b fuel o k = some out → P out
  | 0, _, _, _, _, h => by cases h
  | fuel + 1, o, hreach, k, out, h => by
    by_cases ho : o = 0
    · subst ho
      cases h
      exact hnone
    · have hthis := hiter o k (hreach ho)
      rw [ndpLoop_succ ho] at h
      rcases heq : ndpIter d alloc b o k with ⟨here, _ | o'⟩ <;> rw [heq] at h hthis
      · cases h
        exact hthis
      · obtain ⟨rest, hrest, rfl⟩ := Option.map_eq_some_iff.1 h
        refine happend _ _ hthis (ndpLoop_inv hnone happend hiter fuel (fun ho' => ?_) hrest)
        exact (hreach ho).tail (link_of_ndpIter (by rw [heq]) ho')

/-- With every allocation, the loop does what it does with each NDP of the chain. -/
theorem ndpLoop_reaches {o o' : ℕ} (h : Links.Reaches (nextNdp d b) o o') :
    ∀ {fuel k : ℕ} {out : Out}, o ≠ 0 → ndpLoop d (fun _ => true) b fuel o k = some out →
      ∃ k', (∀ r ∈ (ndpIter d (fun _ => true) b o' k').1.reads, r ∈ out.reads)
        ∧ ∀ i ∈ (ndpIter d (fun _ => true) b o' k').1.nets, i ∈ out.nets := by
  induction h using Relation.ReflTransGen.head_induction_on with
  | refl =>
    intro fuel k out ho hloop
    cases fuel with
    | zero => cases hloop
    | succ fuel =>
      rw [ndpLoop_succ ho] at hloop
      refine ⟨k, ?_⟩
      rcases heq : ndpIter d (fun _ => true) b o' k with ⟨here, _ | next⟩ <;> rw [heq] at hloop
      · cases hloop
        exact ⟨fun r hr => hr, fun i hi => hi⟩
      · obtain ⟨rest, -, rfl⟩ := Option.map_eq_some_iff.1 hloop
        exact ⟨fun r hr => List.mem_append_left _ hr, fun i hi => List.mem_append_left _ hi⟩
  | head hlink _ ih =>
    intro fuel k out ho hloop
    cases fuel with
    | zero => cases hloop
    | succ fuel =>
      have hiter := ndpIter_of_link k hlink
      rw [ndpLoop_succ ho] at hloop
      rcases heq : ndpIter d (fun _ => true) b _ k with ⟨here, _ | next⟩ <;> rw [heq] at hloop hiter
      · cases hiter
      · cases hiter
        obtain ⟨rest, hrest, rfl⟩ := Option.map_eq_some_iff.1 hloop
        obtain ⟨k', hreads, hnets⟩ := ih (ne_zero_of_link hlink) hrest
        exact ⟨k', fun r hr => List.mem_append_right _ (hreads r hr),
          fun i hi => List.mem_append_right _ (hnets i hi)⟩

theorem handler_of_not_headOk (h : ¬ HeadOk d b) :
    ∃ rs, (∀ alloc fuel, rmnetMbimRxHandler d alloc fuel b = some (.ofReads rs))
      ∧ Inside b (.ofReads rs) := by
  unfold rmnetMbimRxHandler
  by_cases hlen : b.length < sizeofNth16 + sizeofNdp16
  · exact ⟨[], fun _ _ => if_pos hlen, inside_none⟩
  have hlen' : 20 ≤ b.length := Nat.not_lt.1 hlen
  have h04 : (0, 4).1 + (0, 4).2 ≤ b.length := by dsimp only; omega
  have h82 : (8, 2).1 + (8, 2).2 ≤ b.length := by dsimp only; omega
  simp only [if_neg hlen]
  by_cases hsign : le32 b 0 ≠ USB_CDC_NCM_NTH16_SIGN
  · exact ⟨_, fun _ _ => if_pos hsign, inside_ofReads_cons.2 ⟨h04, inside_none⟩⟩
  simp only [if_neg hsign]
  have hmax : d.rxMax < le16 b 8 := by
    by_contra hle
    exact h ⟨hlen', not_not.1 hsign, Nat.not_lt.1 hle⟩
  exact ⟨_, fun _ _ => if_pos hmax,
    inside_ofReads_cons.2 ⟨h04, inside_ofReads_cons.2 ⟨h82, inside_none⟩⟩⟩

theorem handler_of_headOk (h : HeadOk d b) (alloc : ℕ → Bool) (fuel : ℕ) :
    rmnetMbimRxHandler d alloc fuel b = (ndpLoop d alloc b fuel (firstNdp d b) 0).map
      (.ofReads [(0, 4), (8, 2), (6, 2), (10, 2)] ++ ·) := by
  unfold rmnetMbimRxHandler
  rw [if_neg (Nat.not_lt.2 h.1), if_neg (not_not.2 h.2.1), if_neg (Nat.not_lt.2 h.2.2)]

theorem inside_head (h : HeadOk d b) :
    Inside b (.ofReads [(0, 4), (8, 2), (6, 2), (10, 2)]) := by
  have hlen : 20 ≤ b.length := h.1
  simp only [inside_ofReads_cons]
  refine ⟨?_, ?_, ?_, ?_, inside_none⟩ <;> omega

/-- What an NDP of the chain reads and uses, where the block is sound. -/
theorem ndpIter_of_sound (h : Sound d b) (hhead : HeadOk d b) (hfirst : firstNdp d b ≠ 0) {o : ℕ}
    (k : ℕ) (ho : Links.Reaches (nextNdp d b) (firstNdp d b) o) :
    Inside b (ndpIter d alloc b o k).1 ∧ ∀ i ∈ (ndpIter d alloc b o k).1.nets, i < d.qmapMode := by
  by_cases htaken : Taken d b o
  · have hr : ReachesTable d b o := ⟨hhead, hfirst, ho, htaken⟩
    obtain ⟨t, table, htci, hsup, rfl, hnets, -, hinside, -, -⟩ := ndpIter_of_taken alloc k htaken
    rw [hinside, hnets, List.forall_mem_singleton, netIdx_lt_iff (tci_lt htci) hsup]
    refine ⟨dpeLoop_inside _ 0 k passes_zero fun y hy => ?_, fun hmode heq => ?_⟩
    · exact h.tables o hr y (by omega)
    · exact h.session o hr hmode (heq ▸ htci)
  · obtain ⟨rs, heq, hin⟩ := ndpIter_of_not_taken alloc k htaken
    rw [heq]
    exact ⟨hin, fun i hi => absurd hi List.not_mem_nil⟩

theorem inBounds_of_sound (h : Sound d b) : InBounds d b := by
  by_cases hhead : HeadOk d b
  swap
  · obtain ⟨rs, heq, hin⟩ := handler_of_not_headOk hhead
    refine ⟨fun alloc => ⟨0, by rw [heq]; rfl⟩, fun alloc fuel out hout => ?_,
      fun alloc fuel out hout => ?_⟩ <;> rw [heq] at hout <;> cases hout
    · exact hin
    · exact fun i hi => absurd hi List.not_mem_nil
  have hinv (alloc : ℕ → Bool) (fuel : ℕ) {out : Out}
      (hout : ndpLoop d alloc b fuel (firstNdp d b) 0 = some out) :
      Inside b out ∧ ∀ i ∈ out.nets, i < d.qmapMode := by
    by_cases hfirst : firstNdp d b = 0
    · rw [hfirst] at hout
      cases fuel with
      | zero => cases hout
      | succ fuel =>
        cases hout
        exact ⟨inside_none, fun i hi => absurd hi List.not_mem_nil⟩
    · refine ndpLoop_inv (P := fun out => Inside b out ∧ ∀ i ∈ out.nets, i < d.qmapMode)
        ⟨inside_none, fun i hi => absurd hi List.not_mem_nil⟩ (fun out out' h1 h2 => ?_)
        (fun o k ho => ndpIter_of_sound h hhead hfirst k ho) fuel (fun _ => .refl) hout
      refine ⟨inside_append.2 ⟨h1.1, h2.1⟩, fun i hi => ?_⟩
      exact (List.mem_append.1 hi).elim (h1.2 i) (h2.2 i)
  refine ⟨fun alloc => ?_, fun alloc fuel out hout => ?_, fun alloc fuel out hout => ?_⟩
  · by_cases hfirst : firstNdp d b = 0
    · exact ⟨1, by rw [handler_of_headOk hhead, hfirst]; rfl⟩
    · obtain ⟨fuel, hfuel⟩ := ndpLoop_ends alloc (firstNdp_lt d b) (h.chain hhead hfirst) 0
      exact ⟨fuel, by rw [handler_of_headOk hhead]; simpa using hfuel⟩
  · rw [handler_of_headOk hhead] at hout
    obtain ⟨rest, hrest, rfl⟩ := Option.map_eq_some_iff.1 hout
    exact inside_append.2 ⟨inside_head hhead, (hinv alloc fuel hrest).1⟩
  · rw [handler_of_headOk hhead] at hout
    obtain ⟨rest, hrest, rfl⟩ := Option.map_eq_some_iff.1 hout
    exact (hinv alloc fuel hrest).2

theorem sound_of_inBounds (h : InBounds d b) : Sound d b := by
  -- with every allocation, the loop ends and has done all that the chain asks for
  have hloop (hhead : HeadOk d b) : ∃ fuel out,
      ndpLoop d (fun _ => true) b fuel (firstNdp d b) 0 = some out ∧ Inside b out
        ∧ ∀ i ∈ out.nets, i < d.qmapMode := by
    obtain ⟨fuel, hfuel⟩ := h.ends fun _ => true
    obtain ⟨out, hout⟩ := Option.isSome_iff_exists.1 hfuel
    have hreads := h.reads _ _ _ hout
    have hnets := h.nets _ _ _ hout
    rw [handler_of_headOk hhead] at hout
    obtain ⟨rest, hrest, rfl⟩ := Option.map_eq_some_iff.1 hout
    exact ⟨fuel, rest, hrest, (inside_append.1 hreads).2, hnets⟩
  refine ⟨fun o hr x hx hp => ?_, fun o hr hmode heq => ?_, fun hhead hfirst => ?_⟩
  · obtain ⟨hhead, hfirst, ho, htaken⟩ := hr
    obtain ⟨fuel, out, hout, hin, -⟩ := hloop hhead
    obtain ⟨k, hreads, -⟩ := ndpLoop_reaches ho hfirst hout
    obtain ⟨t, table, -, -, rfl, -, -, -, hmem, -⟩ := ndpIter_of_taken (fun _ => true) k htaken
    exact hin _ (hreads _ (hmem _ (mem_reads_dpeLoop _ 0 k x (Nat.zero_le x) (by omega) hp)))
  · obtain ⟨hhead, hfirst, ho, htaken⟩ := hr
    obtain ⟨fuel, out, hout, -, hnets⟩ := hloop hhead
    obtain ⟨k, -, hmem⟩ := ndpLoop_reaches ho hfirst hout
    obtain ⟨t, table, htci, hsup, -, hidx, -⟩ := ndpIter_of_taken (fun _ => true) k htaken
    have hlt := hnets _ (hmem _ (by rw [hidx]; exact List.mem_singleton_self _))
    cases heq.symm.trans htci
    exact (netIdx_lt_iff (tci_lt htci) hsup).1 hlt hmode rfl
  · by_contra hnot
    obtain ⟨fuel, out, hout, -⟩ := hloop hhead
    rw [ndpLoop_eq_none fuel hfirst hnot] at hout
    cases hout

/-- The handler stays in bounds and ends exactly on the blocks that are sound. -/
theorem mbimInBounds_iff (d : Dev) (b : Bytes) : InBounds d b ↔ Sound d b :=
  ⟨sound_of_inBounds, inBounds_of_sound⟩

/-- A block with one NDP, at its beginning, for two entries. -/
def blockOf (t next : ℕ) (table : Bytes) : Bytes :=
  ofLe32 USB_CDC_NCM_NTH16_SIGN ++ ofLe16 sizeofNth16 ++ ofLe16 0
    ++ ofLe16 (sizeofNth16 + sizeofNdp16 + table.length) ++ ofLe16 sizeofNth16
    ++ ((ofLe32 USB_CDC_MBIM_NDP16_IPS_SIGN).take 3 ++ [UInt8.ofNat t])
    ++ ofLe16 (sizeofNdp16 + sizeofDpe16 * 2) ++ ofLe16 next ++ table

/-- A modem whose sessions start at 0. -/
def devOf (qmapMode : ℕ) (one_le : 1 ≤ qmapMode) (le_eight : qmapMode ≤ 8) : Dev where
  qmapMode := qmapMode
  mbimMuxId := 0
  rxMax := dwNtbInMaxSize
  littleEndian := true
  mpQmapNetDev _ := { mtu := 1500, dest := none }
  one_le := one_le
  le_eight := le_eight
  muxId_lt := Nat.two_pow_pos 32

def dev1 : Dev := devOf 1 (Nat.le_refl 1) (Nat.le_add_left 1 7)

def dev2 : Dev := devOf 2 (Nat.le_add_left 1 1) (Nat.le_add_left 2 6)

/-- An NDP that names itself, one whose table starts at the end of the block, and one of session 0
where there are two interfaces. -/
theorem mbim_out_of_bounds :
    ¬ InBounds dev1 (blockOf 0 12 [0, 0, 0, 0, 0, 0, 0, 0]) ∧ ¬ InBounds dev1 (blockOf 0 0 [])
      ∧ ¬ InBounds dev2 (blockOf 0 0 [0, 0, 0, 0, 0, 0, 0, 0]) := by
  refine ⟨fun h => ?_, fun h => ?_, fun h => ?_⟩
  · have hlink : Links.Link (nextNdp dev1 (blockOf 0 12 [0, 0, 0, 0, 0, 0, 0, 0])) 12 12 := by
      unfold Links.Link
      decide
    exact (sound_of_inBounds h).chain (by decide) (by decide) 12 .refl (.single hlink)
  · have hr : ReachesTable dev1 (blockOf 0 0 []) 12 := ⟨by decide, by decide, .refl, by decide⟩
    exact absurd ((sound_of_inBounds h).tables 12 hr 0 (by decide) passes_zero) (by decide)
  · have hr : ReachesTable dev2 (blockOf 0 0 [0, 0, 0, 0, 0, 0, 0, 0]) 12 :=
      ⟨by decide, by decide, .refl, by decide⟩
    exact (sound_of_inBounds h).session 12 hr (by decide) (by decide)

end Mbim

end BananaWrt
