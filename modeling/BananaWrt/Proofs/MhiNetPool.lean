import Mathlib.Data.List.Nodup
import BananaWrt.Lib.Run
import BananaWrt.MhiNetPool

/-!
# No page is shared with the modem

The pages and those who refer to them are an account that each operation keeps (`Pages`), with the
pages that the driver has in its hands meanwhile. A page that the driver finds with one reference
belongs to the pool alone, so that it may be queued; one that has been completed goes from the ring
to the chain, and from there to the stack. What has been queued after the reset stays in the ring
for good, and this is all that is left behind.
-/

namespace BananaWrt

namespace NetPool

open Refcount (Owned count_cons_eq)

/-- `k` are the pages in the hands of the driver. -/
structure Pages (s : Store) (k : List ℕ) : Prop where
  counts : Owned s.refcount (k ++ s.owners)
  mapped : ∀ p, s.mapped p = true ↔ p ∈ s.netbufPool ∨ p ∈ s.ring ∧ s.unmap p = .unmapPage
  pool : ∀ p ∈ s.netbufPool, s.unmap p = .sync
  nodup : s.netbufPool.Nodup
  queuedOnce : s.ring.Nodup
  held : ∀ p ∈ k, p ∉ s.ring
  apart : ∀ f ∈ s.chain ++ s.stack, f.page ∉ s.ring
  contents : ∀ f ∈ s.chain ++ s.stack, (s.mem f.page).take f.data.length = f.data
  bug : s.bug = false

/-- What is queued and not of the pool is to be unmapped. -/
def Backed (s : Store) : Prop := ∀ p ∈ s.ring, p ∉ s.netbufPool → s.unmap p = .unmapPage

section Pages

variable {c : Cfg} {s : Store} {k : List ℕ} {p : ℕ} {a : Alloc} {x : Bool}

theorem Pages.notMem_of_free (h : Pages s k) (hp : s.refcount p = 0) :
    p ∉ s.netbufPool ∧ p ∉ s.ring ∧ ∀ f ∈ s.chain ++ s.stack, f.page ≠ p := by
  have hnone := h.counts.zero_iff.1 hp
  refine ⟨fun hm => hnone ?_, fun hm => hnone ?_, fun f hf heq => hnone ?_⟩
  · exact List.mem_append_right k (List.mem_append_left _ hm)
  · exact List.mem_append_right k (List.mem_append_right _ (List.mem_append_left _ hm))
  · refine List.mem_append_right k (List.mem_append_right _ (List.mem_append_right _ ?_))
    exact List.mem_map.2 ⟨f, hf, heq⟩

theorem freePages_of_ne_zero (hp : s.refcount p ≠ 0) :
    s.freePages p = { s with refcount := Function.update s.refcount p (s.refcount p - 1) } := by
  rw [Store.freePages, Refcount.put, if_neg hp]

theorem Pages.free (h : Pages s (p :: k)) : ∃ r,
    s.freePages p = { s with refcount := r } ∧ Pages { s with refcount := r } k := by
  have hput := h.counts.put
  refine ⟨_, freePages_of_ne_zero (h.counts.ne_zero List.mem_cons_self), hput.2, h.mapped, h.pool,
    h.nodup, h.queuedOnce, fun q hq => h.held q (List.mem_cons_of_mem p hq), h.apart, h.contents,
    h.bug⟩

theorem dmaUnmapPage_of_mapped (hp : s.mapped p = true) :
    s.dmaUnmapPage p = { s with mapped := Function.update s.mapped p false } := if_pos hp

theorem unmapBuf_sync (hu : s.unmap p = .sync) : s.unmapBuf p = s := by
  rw [Store.unmapBuf, hu]

/-- The first page that is queued is taken out, and unmapped if it is not of the pool. -/
theorem Pages.pop {ring : List ℕ} (h : Pages s []) (hb : Backed s) (hring : s.ring = p :: ring) :
    ∃ m, { s with ring := ring }.unmapBuf p = { s with ring := ring, mapped := m }
      ∧ Pages { s with ring := ring, mapped := m } [p] := by
  have hmem : p ∈ s.ring := hring ▸ List.mem_cons_self
  have hsub : ∀ q ∈ ring, q ∈ s.ring := fun q hq => hring ▸ List.mem_cons_of_mem p hq
  obtain ⟨hnew, hnodup⟩ := List.nodup_cons.1 (hring ▸ h.queuedOnce : (p :: ring).Nodup)
  have hcounts : Owned s.refcount ([p] ++ { s with ring := ring }.owners) := by
    refine h.counts.congr fun q => ?_
    simp only [Store.owners, hring, List.count_append, List.nil_append, count_cons_eq,
      List.count_nil]
    omega
  have hrest : ∀ m : ℕ → Bool,
      (∀ q, m q = true ↔ q ∈ s.netbufPool ∨ q ∈ ring ∧ s.unmap q = .unmapPage) →
      Pages { s with ring := ring, mapped := m } [p] := fun m hm =>
    ⟨hcounts, hm, h.pool, h.nodup, hnodup, fun q hq => List.mem_singleton.1 hq ▸ hnew,
      fun f hf hq => h.apart f hf (hsub _ hq), h.contents, h.bug⟩
  by_cases hp : p ∈ s.netbufPool
  · refine ⟨s.mapped, ?_, hrest _ fun q => (h.mapped q).trans ?_⟩
    · exact unmapBuf_sync (h.pool p hp)
    · refine or_congr_right' fun hq => and_congr_left fun _ => ?_
      rw [hring, List.mem_cons, or_iff_right]
      exact fun heq => hq (heq ▸ hp)
  · have hunmap := hb p hmem hp
    have hmapped : s.mapped p = true := (h.mapped p).2 (Or.inr ⟨hmem, hunmap⟩)
    refine ⟨Function.update s.mapped p false, ?_, hrest _ fun q => ?_⟩
    · rw [Store.unmapBuf, hunmap]
      exact dmaUnmapPage_of_mapped hmapped
    · by_cases hq : q = p
      · rw [hq, Function.update_self]
        exact iff_of_false Bool.false_ne_true (not_or.2 ⟨hp, fun hr => hnew hr.1⟩)
      · rw [Function.update_of_ne hq, h.mapped q, hring, List.mem_cons, or_iff_right hq]

/-- A page that has been completed goes to the chain. -/
theorem Pages.chain (h : Pages s [p]) (n : ℕ) :
    Pages { s with chain := s.chain ++ [⟨p, (s.mem p).take n⟩] } [] := by
  have hmem : ∀ {f : Frag}, f ∈ s.chain ++ [⟨p, (s.mem p).take n⟩] ++ s.stack →
      f ∈ s.chain ++ s.stack ∨ f = ⟨p, (s.mem p).take n⟩ := by
    intro f hf
    simp only [List.mem_append, List.mem_singleton] at hf ⊢
    tauto
  refine ⟨h.counts.congr fun q => ?_, h.mapped, h.pool, h.nodup, h.queuedOnce,
    fun _ hq => absurd hq List.not_mem_nil, fun f hf => ?_, fun f hf => ?_, h.bug⟩
  · simp only [Store.owners, List.map_append, List.map_cons, List.map_nil, List.count_append,
      count_cons_eq, List.count_nil]
    omega
  · rcases hmem hf with hf | rfl
    · exact h.apart f hf
    · exact h.held p List.mem_cons_self
  · rcases hmem hf with hf | rfl
    · exact h.contents f hf
    · change (s.mem p).take ((s.mem p).take n).length = (s.mem p).take n
      rw [List.length_take]
      exact List.take_eq_take_iff.2 (by omega)

theorem Pages.deliver (h : Pages s k) :
    Pages { s with chain := [], stack := s.stack ++ s.chain } k := by
  have hmem : ∀ {f : Frag}, f ∈ [] ++ (s.stack ++ s.chain) → f ∈ s.chain ++ s.stack := by
    intro f hf
    simp only [List.mem_append, List.nil_append] at hf ⊢
    exact hf.symm
  refine ⟨h.counts.congr fun q => ?_, h.mapped, h.pool, h.nodup, h.queuedOnce, h.held,
    fun f hf => h.apart f (hmem hf), fun f hf => h.contents f (hmem hf), h.bug⟩
  simp only [Store.owners, List.map_append, List.nil_append, List.count_append]
  omega

/-- The modem writes to a page that is queued. -/
theorem Pages.write (h : Pages s k) (hp : p ∈ s.ring) (data : Bytes) :
    Pages { s with mem := Function.update s.mem p data } k := by
  refine ⟨h.counts, h.mapped, h.pool, h.nodup, h.queuedOnce, h.held, h.apart, fun f hf => ?_,
    h.bug⟩
  have hne : f.page ≠ p := fun heq => h.apart f hf (heq ▸ hp)
  change (Function.update s.mem p data f.page).take f.data.length = f.data
  rw [Function.update_of_ne hne]
  exact h.contents f hf

theorem Pages.clone {f : Frag} (h : Pages s k) (hf : f ∈ s.stack) :
    Pages { s.getPage f.page with stack := s.stack ++ [f] } k := by
  have hmem : ∀ {f' : Frag}, f' ∈ s.chain ++ (s.stack ++ [f]) → f' ∈ s.chain ++ s.stack := by
    intro f' hf'
    simp only [List.mem_append, List.mem_singleton] at hf' ⊢
    rcases hf' with hf' | hf' | rfl
    · exact Or.inl hf'
    · exact Or.inr hf'
    · exact Or.inr hf
  refine ⟨(h.counts.get f.page).congr fun q => ?_, h.mapped, h.pool, h.nodup, h.queuedOnce, h.held,
    fun f' hf' => h.apart f' (hmem hf'), fun f' hf' => h.contents f' (hmem hf'), h.bug⟩
  simp only [Store.owners, Store.getPage, List.map_append, List.map_cons, List.map_nil,
    List.count_append, count_cons_eq, List.count_nil]
  omega

/-- The stack gives a packet to the driver, which frees its page. -/
theorem Pages.consume {f : Frag} (h : Pages s []) (hf : f ∈ s.stack) :
    Pages { s with stack := s.stack.erase f } [f.page] := by
  have hmem : ∀ {f' : Frag}, f' ∈ s.chain ++ s.stack.erase f → f' ∈ s.chain ++ s.stack :=
    fun hf' => (List.mem_append.1 hf').elim (fun h => List.mem_append_left _ h)
      fun h => List.mem_append_right _ (List.mem_of_mem_erase h)
  refine ⟨h.counts.congr fun q => ?_, h.mapped, h.pool, h.nodup, h.queuedOnce, fun q hq => ?_,
    fun f' hf' => h.apart f' (hmem hf'), fun f' hf' => h.contents f' (hmem hf'), h.bug⟩
  · have hperm := ((List.perm_cons_erase hf).map Frag.page).count_eq q
    rw [List.map_cons, count_cons_eq] at hperm
    simp only [Store.owners, List.map_append, List.count_append, List.nil_append, count_cons_eq,
      List.count_nil, hperm]
    omega
  · exact List.mem_singleton.1 hq ▸ h.apart f (List.mem_append_right _ hf)

theorem mhiQueueDma_cases (c : Cfg) (s : Store) (p : ℕ) (xfers : Bool) :
    s.mhiQueueDma c p xfers = none ∧ ¬ (s.ring.length < c.els ∧ xfers = true)
      ∨ s.mhiQueueDma c p xfers = some { s with ring := s.ring ++ [p] } ∧ s.ring.length < c.els
        ∧ xfers = true := by
  unfold Store.mhiQueueDma
  split_ifs with h
  · exact Or.inr ⟨rfl, h⟩
  · exact Or.inl ⟨rfl, h⟩

/-- An attempt to queue a page: it is queued exactly if there is room and `wants` holds. -/
structure Queued (c : Cfg) (s : Store) (t : Store × Bool) (wants : Prop) : Prop where
  pages : Pages t.1 []
  backed : Backed s → Backed t.1
  pool : t.1.netbufPool = s.netbufPool
  chain : t.1.chain = s.chain
  ring : t.1.ring = s.ring ∧ t.2 = false ∧ ¬ (s.ring.length < c.els ∧ wants)
    ∨ (∃ p, t.1.ring = s.ring ++ [p]) ∧ t.2 = true ∧ s.ring.length < c.els ∧ wants

/-- One more page in the ring. -/
theorem Pages.push {t : Store} (h : Pages s []) (hring : p ∉ s.ring)
    (hfrags : ∀ f ∈ s.chain ++ s.stack, f.page ≠ p) (ht : t.ring = s.ring ++ [p])
    (hsame : t.netbufPool = s.netbufPool ∧ t.chain = s.chain ∧ t.stack = s.stack ∧ t.mem = s.mem
      ∧ t.bug = s.bug)
    (hcounts : Owned t.refcount (p :: s.owners)) (hpool : ∀ q ∈ s.netbufPool, t.unmap q = .sync)
    (hmapped : ∀ q, t.mapped q = true
      ↔ q ∈ s.netbufPool ∨ (q ∈ s.ring ∨ q = p) ∧ t.unmap q = .unmapPage) : Pages t [] := by
  obtain ⟨hpool', hchain, hstack, hmem, hbug⟩ := hsame
  refine ⟨hcounts.congr fun q => ?_, fun q => ?_, hpool' ▸ hpool, hpool' ▸ h.nodup, ?_,
    fun _ hq => absurd hq List.not_mem_nil, ?_, ?_, hbug.trans h.bug⟩
  · simp only [Store.owners, hpool', hchain, hstack, ht, List.count_append, count_cons_eq,
      List.count_nil]
    omega
  · rw [hmapped q, hpool', ht, List.mem_append, List.mem_singleton]
  · rw [ht]
    exact List.nodup_append_comm.1 (List.nodup_cons.2 ⟨hring, h.queuedOnce⟩)
  · rw [hchain, hstack, ht]
    intro f hf hq
    rcases List.mem_append.1 hq with hq | hq
    · exact h.apart f hf hq
    · exact hfrags f hf (List.mem_singleton.1 hq)
  · rw [hchain, hstack, hmem]
    exact h.contents

/-- The pool's is the only reference. -/
theorem Pages.sole (h : Pages s []) (hp : p ∈ s.netbufPool) (hone : s.refcount p = 1) :
    p ∉ s.ring ∧ ∀ f ∈ s.chain ++ s.stack, f.page ≠ p := by
  have hperm : (p :: (s.netbufPool.erase p ++ (s.ring ++ (s.chain ++ s.stack).map Frag.page))).Perm
      ([] ++ s.owners) := ((List.perm_cons_erase hp).append_right _).symm
  have hnone := Owned.notMem_of_eq_one (h.counts.perm hperm) hone
  rw [List.mem_append, List.mem_append, not_or, not_or] at hnone
  exact ⟨hnone.2.1, fun f hf heq => hnone.2.2 (List.mem_map.2 ⟨f, hf, heq⟩)⟩

/-- A page of the pool that has one reference is queued, or nothing changes. -/
theorem Pages.reclaim (h : Pages s []) (hp : p ∈ s.netbufPool) (hone : s.refcount p = 1) :
    Queued c s (s.reclaim c p x) (x = true) := by
  rcases mhiQueueDma_cases c (s.getPage p) p x with ⟨hq, hfull⟩ | ⟨hq, hroom⟩
  · have hsync : (s.getPage p).unmapBuf p = s.getPage p := unmapBuf_sync (h.pool p hp)
    have hback : Function.update (s.getPage p).refcount p ((s.getPage p).refcount p - 1)
        = s.refcount := by
      change Function.update (Function.update s.refcount p (s.refcount p + 1)) p
        (Function.update s.refcount p (s.refcount p + 1) p - 1) = s.refcount
      rw [Function.update_self, Nat.add_sub_cancel, Function.update_idem, Function.update_eq_self]
    have hsame : s.reclaim c p x = (s, false) := by
      simp only [Store.reclaim, hq, hsync, hback]
      rfl
    rw [hsame]
    exact ⟨h, id, rfl, rfl, Or.inl ⟨rfl, rfl, hfull⟩⟩
  · obtain ⟨hring, hfrags⟩ := h.sole hp hone
    have hcounts : Owned (Refcount.get s.refcount p) (p :: s.owners) := Owned.get h.counts p
    have hqueued : s.reclaim c p x = ({ s.getPage p with ring := s.ring ++ [p] }, true) := by
      rw [Store.reclaim]
      simp only [hq]
      rfl
    rw [hqueued]
    refine ⟨?_, fun hb q hr hn => ?_, rfl, rfl, Or.inr ⟨⟨p, rfl⟩, rfl, hroom⟩⟩
    · refine h.push hring hfrags rfl ⟨rfl, rfl, rfl, rfl, rfl⟩ hcounts h.pool fun q =>
        (h.mapped q).trans ?_
      refine or_congr_right' fun hq' => and_congr_left fun _ => (or_iff_left ?_).symm
      exact fun heq => hq' (heq ▸ hp)
    · rcases List.mem_append.1 hr with hr | hr
      · exact hb q hr hn
      · exact absurd (List.mem_singleton.1 hr ▸ hp) hn

/-- `mhi_netdev_alloc` gives no page, and then nothing has changed, or one that is mapped. -/
theorem mhiNetdevAlloc_cases (s : Store) (a : Alloc) (u : Unmap)
    (hfresh : ∀ p ∈ a.page, s.refcount p = 0) :
    s.mhiNetdevAlloc a u = (s, none) ∧ ¬ (a.page.isSome ∧ a.maps = true)
      ∨ ∃ p, a.page = some p ∧ a.maps = true ∧ s.mhiNetdevAlloc a u = ({ s with
        refcount := Refcount.alloc s.refcount p
        mapped := Function.update s.mapped p true
        unmap := Function.update s.unmap p u }, some p) := by
  obtain ⟨page, maps⟩ := a
  cases page with
  | none => exact Or.inl ⟨rfl, fun hsome => Bool.false_ne_true hsome.1⟩
  | some p =>
    have hp : s.refcount p = 0 := hfresh p rfl
    cases maps with
    | true => exact Or.inr ⟨p, rfl, rfl, rfl⟩
    | false =>
      refine Or.inl ⟨?_, fun hmaps => Bool.false_ne_true hmaps.2⟩
      change (Store.freePages { s with refcount := Refcount.alloc s.refcount p } p, none) = _
      rw [Store.freePages]
      simp only [Refcount.put_alloc hp]

/-- A page for one packet is queued, or freed again. -/
theorem Pages.tmpAlloc (h : Pages s []) (hfresh : ∀ p ∈ a.page, s.refcount p = 0) :
    Queued c s (s.tmpAlloc c a x) (a.page.isSome ∧ a.maps = true ∧ x = true) := by
  rcases mhiNetdevAlloc_cases s a .unmapPage hfresh with ⟨ha, hnone⟩ | ⟨p, hpage, hmaps, ha⟩
  · have hsame : s.tmpAlloc c a x = (s, false) := by
      simp only [Store.tmpAlloc, ha]
    rw [hsame]
    exact ⟨h, id, rfl, rfl, Or.inl ⟨rfl, rfl, fun hw => hnone ⟨hw.2.1, hw.2.2.1⟩⟩⟩
  · have hp : s.refcount p = 0 := hfresh p hpage
    obtain ⟨hpool, hring, hfrags⟩ := h.notMem_of_free hp
    have hne : ∀ {q : ℕ}, q ∈ s.netbufPool → q ≠ p := fun hq heq => hpool (heq ▸ hq)
    have hne' : ∀ {q : ℕ}, q ∈ s.ring → q ≠ p := fun hq heq => hring (heq ▸ hq)
    have hcounts : Owned (Refcount.alloc s.refcount p) (p :: s.owners) := Owned.alloc h.counts hp
    have hunmap : ∀ q ∈ s.netbufPool, Function.update s.unmap p .unmapPage q = .sync :=
      fun q hq => (Function.update_of_ne (hne hq) _ _).trans (h.pool q hq)
    have hmapped : ∀ q, Function.update s.mapped p true q = true ↔ q ∈ s.netbufPool
        ∨ (q ∈ s.ring ∨ q = p) ∧ Function.update s.unmap p .unmapPage q = .unmapPage := by
      intro q
      by_cases hq : q = p
      · rw [hq, Function.update_self, Function.update_self]
        exact iff_of_true rfl (Or.inr ⟨Or.inr rfl, rfl⟩)
      · rw [Function.update_of_ne hq, Function.update_of_ne hq, h.mapped q, or_iff_left hq]
    rcases mhiQueueDma_cases c (s.mhiNetdevAlloc a .unmapPage).1 p x with
      ⟨hq, hfull⟩ | ⟨hq, hroom⟩
    · rw [ha] at hq hfull
      have hfree : s.mapped p = false := by
        refine Bool.eq_false_iff.2 fun hm => ?_
        exact ((h.mapped p).1 hm).elim hpool fun hr => hring hr.1
      have hback : Function.update (Function.update s.mapped p true) p false = s.mapped := by
        rw [Function.update_idem]
        exact Function.update_eq_self_iff.2 hfree.symm
      have hsame : s.tmpAlloc c a x
          = ({ s with unmap := Function.update s.unmap p .unmapPage }, false) := by
        simp only [Store.tmpAlloc, ha, hq]
        rw [dmaUnmapPage_of_mapped (Function.update_self _ _ _), Store.freePages]
        simp only [hback, Refcount.put_alloc hp]
      rw [hsame]
      refine ⟨⟨h.counts, fun q => ?_, hunmap, h.nodup, h.queuedOnce, h.held, h.apart, h.contents,
        h.bug⟩, fun hb q hr hn => ?_, rfl, rfl,
        Or.inl ⟨rfl, rfl, fun hw => hfull ⟨hw.1, hw.2.2.2⟩⟩⟩
      · refine (h.mapped q).trans (or_congr_right' fun _ => and_congr_right fun hr => ?_)
        change _ ↔ Function.update s.unmap p .unmapPage q = .unmapPage
        rw [Function.update_of_ne (hne' hr)]
      · change Function.update s.unmap p .unmapPage q = .unmapPage
        rw [Function.update_of_ne (hne' hr)]
        exact hb q hr hn
    · rw [ha] at hq hroom
      have hqueued : s.tmpAlloc c a x = ({ s with
          refcount := Refcount.alloc s.refcount p
          mapped := Function.update s.mapped p true
          unmap := Function.update s.unmap p .unmapPage
          ring := s.ring ++ [p] }, true) := by
        simp only [Store.tmpAlloc, ha, hq]
      rw [hqueued]
      refine ⟨?_, fun hb q hr hn => ?_, rfl, rfl, Or.inr ⟨⟨p, rfl⟩, rfl, hroom.1, ?_, hmaps,
        hroom.2⟩⟩
      · exact h.push hring hfrags rfl ⟨rfl, rfl, rfl, rfl, rfl⟩ hcounts hunmap hmapped
      · change Function.update s.unmap p .unmapPage q = .unmapPage
        by_cases hq' : q = p
        · rw [hq', Function.update_self]
        · rw [Function.update_of_ne hq']
          refine hb q ((List.mem_append.1 hr).resolve_right fun hs => ?_) hn
          exact hq' (List.mem_singleton.1 hs)
      · rw [hpage]
        rfl

/-- One more page in the pool, before any is queued. -/
theorem Pages.fill (h : Pages s []) (hring : s.ring = []) (hp : s.refcount p = 0) :
    Pages { s with
      refcount := Refcount.alloc s.refcount p
      mapped := Function.update s.mapped p true
      unmap := Function.update s.unmap p .sync
      netbufPool := s.netbufPool ++ [p] } [] := by
  obtain ⟨hpool, -, -⟩ := h.notMem_of_free hp
  have hcounts : Owned (Refcount.alloc s.refcount p) (p :: s.owners) := Owned.alloc h.counts hp
  refine ⟨hcounts.congr fun q => ?_, fun q => ?_, fun q hq => ?_, ?_, h.queuedOnce, h.held, h.apart,
    h.contents, h.bug⟩
  · simp only [Store.owners, List.count_append, count_cons_eq, List.count_nil]
    omega
  · have hnone : ∀ {u : Unmap}, ¬ (q ∈ s.ring ∧ u = .unmapPage) := fun hr =>
      List.not_mem_nil (hring ▸ hr.1)
    have hmapped := (h.mapped q).trans (or_iff_left hnone)
    change Function.update s.mapped p true q = true ↔ q ∈ s.netbufPool ++ [p] ∨ q ∈ s.ring ∧ _
    rw [or_iff_left hnone, List.mem_append, List.mem_singleton]
    by_cases hq : q = p
    · rw [hq, Function.update_self]
      exact iff_of_true rfl (Or.inr rfl)
    · rw [Function.update_of_ne hq, hmapped, or_iff_left hq]
  · change Function.update s.unmap p .sync q = .sync
    by_cases hq' : q = p
    · rw [hq', Function.update_self]
    · rw [Function.update_of_ne hq']
      exact h.pool q ((List.mem_append.1 hq).resolve_right fun hs => hq' (List.mem_singleton.1 hs))
  · exact List.nodup_append_comm.1 (List.nodup_cons.2 ⟨hpool, h.nodup⟩)

/-- Pages that are mapped and owned are unmapped and freed one after the other. -/
theorem freeAll_eq : ∀ {ps os : List ℕ} {s : Store}, ps.Nodup → (∀ p ∈ ps, s.mapped p = true) →
    Owned s.refcount (ps ++ os) → ∃ r m, s.freeAll ps = { s with refcount := r, mapped := m }
      ∧ Owned r os ∧ ∀ q, m q = true ↔ s.mapped q = true ∧ q ∉ ps
  | [], _, s, _, _, hcounts =>
    ⟨s.refcount, s.mapped, rfl, hcounts, fun _ => (and_iff_left List.not_mem_nil).symm⟩
  | p :: ps, os, s, hnodup, hmapped, hcounts => by
    obtain ⟨hp, hnodup⟩ := List.nodup_cons.1 hnodup
    obtain ⟨-, hput⟩ := hcounts.put
    have hne : ∀ q ∈ ps, q ≠ p := fun q hq heq => hp (heq ▸ hq)
    have hstep : (s.dmaUnmapPage p).freePages p = { s with
        refcount := Function.update s.refcount p (s.refcount p - 1)
        mapped := Function.update s.mapped p false } := by
      rw [dmaUnmapPage_of_mapped (hmapped p List.mem_cons_self)]
      exact freePages_of_ne_zero (hcounts.ne_zero List.mem_cons_self)
    have hmapped' : ∀ q ∈ ps, Function.update s.mapped p false q = true := fun q hq =>
      (Function.update_of_ne (hne q hq) _ _).trans (hmapped q (List.mem_cons_of_mem p hq))
    obtain ⟨r, m, heq, hr, hm⟩ := freeAll_eq hnodup (s := { s with
      refcount := Function.update s.refcount p (s.refcount p - 1)
      mapped := Function.update s.mapped p false }) hmapped' hput
    refine ⟨r, m, ?_, hr, fun q => (hm q).trans ?_⟩
    · change ((s.dmaUnmapPage p).freePages p).freeAll ps = _
      rw [hstep, heq]
    · change Function.update s.mapped p false q = true ∧ q ∉ ps ↔ _
      rw [List.mem_cons, not_or]
      by_cases hq : q = p
      · rw [hq, Function.update_self]
        exact iff_of_false (fun h => Bool.false_ne_true h.1) fun h => h.2.1 rfl
      · rw [Function.update_of_ne hq, and_iff_right hq]

/-- The pool is given up, in any order. -/
theorem Pages.giveUp {ps : List ℕ} (h : Pages s []) (hps : ps.Perm s.netbufPool) :
    ∃ r m, { s.freeAll ps with netbufPool := [] }
      = { s with refcount := r, mapped := m, netbufPool := [] }
      ∧ Pages { s with refcount := r, mapped := m, netbufPool := [] } [] := by
  have hmapped : ∀ p ∈ ps, s.mapped p = true := fun p hp =>
    (h.mapped p).2 (Or.inl (hps.mem_iff.1 hp))
  have hcounts : Owned s.refcount (ps ++ (s.ring ++ (s.chain ++ s.stack).map Frag.page)) :=
    h.counts.perm (hps.append_right _)
  obtain ⟨r, m, heq, hr, hm⟩ := freeAll_eq (hps.nodup_iff.2 h.nodup) hmapped hcounts
  refine ⟨r, m, ?_, hr, fun q => (hm q).trans ?_, fun q hq => absurd hq List.not_mem_nil,
    List.nodup_nil, h.queuedOnce, h.held, h.apart, h.contents, h.bug⟩
  · rw [heq]
  · rw [h.mapped q, hps.mem_iff]
    constructor
    · rintro ⟨hq | hq, hn⟩
      · exact absurd hq hn
      · exact Or.inr hq
    · rintro (hq | hq)
      · exact absurd hq List.not_mem_nil
      · exact ⟨Or.inr hq, fun hn => Unmap.noConfusion (hq.2.symm.trans (h.pool q hn))⟩

end Pages

/-! ## Polls -/

theorem poolSize_eq (c : Cfg) : ∃ k, c.poolSize = 2 ^ k := by
  unfold Cfg.poolSize
  dsimp only
  split_ifs
  · exact ⟨Nat.log 2 c.els + 1 + 1, by rw [Nat.pow_succ, Nat.pow_succ]⟩
  · exact ⟨Nat.log 2 c.els + 1, by rw [Nat.pow_succ]⟩

theorem poolSize_pos (c : Cfg) : 0 < c.poolSize := by
  obtain ⟨k, hk⟩ := poolSize_eq c
  exact hk ▸ Nat.two_pow_pos k

/-- The index stays in the pool. -/
theorem nextIndex_lt (c : Cfg) (i : ℕ) : c.nextIndex i < c.poolSize := by
  obtain ⟨k, hk⟩ := poolSize_eq c
  rw [Cfg.nextIndex, hk, Nat.and_two_pow_sub_one_eq_mod]
  exact Nat.mod_lt _ (Nat.two_pow_pos k)

/-- There is a pool, and polls. -/
def Phase.Working (p : Phase) : Prop := p = .running ∨ p = .resetting ∨ p = .reset

/-- The descriptors that a loop has to fill yet. -/
def Poll.left? : Poll → Option ℕ
  | .queueing left _ _ => some left
  | .allocating left => some left
  | _ => none

theorem Phase.Working.ne {p : Phase} (h : p.Working) :
    p ≠ .filling ∧ p ≠ .noPool ∧ p ≠ .removed := by
  rcases h with rfl | rfl | rfl <;> decide

structure Base (c : Cfg) (s : St) : Prop where
  pages : Pages s.toStore []
  backed : s.phase ≠ .removed → Backed s.toStore
  inOrder : s.delivered ++ s.chain.map Frag.data = s.received
  room : s.ring.length ≤ c.els
  index : s.currentIndex < c.poolSize
  pool : s.phase.Working → s.netbufPool.length = c.poolSize
  filling : s.phase = .filling → s.netbufPool.length < c.poolSize ∧ s.ring = [] ∧ s.stack = []
  noPool : s.phase = .noPool → s.netbufPool = [] ∧ s.ring = [] ∧ s.stack = []
  removed : s.phase = .removed → s.netbufPool = []

structure Sound (c : Cfg) (s : St) : Prop extends Base c s where
  chain : s.poll ≠ .polling → s.chain = []
  idle : ¬ s.phase.Working → s.poll = .idle
  peeking : ∀ left peak i, s.poll = .queueing left peak i → i < c.poolSize
  left : s.phase = .running → ∀ n, s.poll.left? = some n → s.ring.length + n = c.els
  refilled : s.refilled = true → s.poll = .idle ∧ s.phase ≠ .filling
    ∧ (s.phase = .running → s.ring.length = c.els)

section Polls

variable {c : Cfg} {s : St} {left : ℕ}

theorem Sound.working (h : Sound c s) (hp : s.poll ≠ .idle) : s.phase.Working :=
  by_contra fun hw => hp (h.idle hw)

theorem Base.idle (h : Base c s) (hidle : s.poll = .idle) (hchain : s.chain = [])
    (hr : s.refilled = true → s.phase ≠ .filling ∧ (s.phase = .running → s.ring.length = c.els)) :
    Sound c s :=
  { h with
    chain := fun _ => hchain
    idle := fun _ => hidle
    peeking := fun _ _ _ hq => Poll.noConfusion (hidle.symm.trans hq)
    left := fun _ _ hl => by rw [hidle] at hl; cases hl
    refilled := fun hr' => ⟨hidle, hr hr'⟩ }

theorem Base.polling (h : Base c s) (hpoll : s.poll = .polling) (hw : s.phase.Working)
    (hr : s.refilled = false) : Sound c s :=
  { h with
    chain := fun hn => absurd hpoll hn
    idle := fun hn => absurd hw hn
    peeking := fun _ _ _ hq => Poll.noConfusion (hpoll.symm.trans hq)
    left := fun _ _ hl => by rw [hpoll] at hl; cases hl
    refilled := fun hr' => absurd (hr.symm.trans hr') Bool.false_ne_true }

theorem Base.pollDone (h : Base c s) (hchain : s.chain = []) (hw : s.phase.Working) {r : Bool}
    (hfull : r = true → s.phase = .running → s.ring.length = c.els) : Sound c (s.pollDone r) :=
  Base.idle { h with } rfl hchain fun hr => ⟨hw.ne.1, hfull hr⟩

/-- A loop goes on, or the poll ends with all descriptors filled. -/
theorem Base.queueMore (h : Base c s) (hchain : s.chain = []) (hw : s.phase.Working)
    (hleft : s.phase = .running → s.ring.length + left = c.els) (hr : s.refilled = false) :
    Sound c (s.queueMore left) := by
  unfold St.queueMore
  split_ifs with hl
  · refine h.pollDone hchain hw fun _ hp => ?_
    rw [← hleft hp, hl, Nat.add_zero]
  · refine { h with
      chain := fun _ => hchain
      idle := fun hn => absurd hw hn
      peeking := fun _ _ _ hq => ?_
      left := fun hp _ hl => ?_
      refilled := fun hr' => absurd (hr.symm.trans hr') Bool.false_ne_true }
    · cases hq
      exact h.index
    · cases hl
      exact hleft hp

theorem Base.allocMore (h : Base c s) (hchain : s.chain = []) (hw : s.phase.Working)
    (hleft : s.phase = .running → s.ring.length + left = c.els) (hr : s.refilled = false) :
    Sound c (s.allocMore left) := by
  unfold St.allocMore
  split_ifs with hl
  · refine h.pollDone hchain hw fun _ hp => ?_
    rw [← hleft hp, hl, Nat.add_zero]
  · exact { h with
      chain := fun _ => hchain
      idle := fun hn => absurd hw hn
      peeking := fun _ _ _ hq => Poll.noConfusion hq
      left := fun hp _ hl => by cases hl; exact hleft hp
      refilled := fun hr' => absurd (hr.symm.trans hr') Bool.false_ne_true }

/-- The pages and the packets change while there is a pool. -/
theorem Base.store {t : Store} {received delivered : List Bytes} (h : Base c s)
    (hw : s.phase.Working) (hp : Pages t []) (hb : Backed s.toStore → Backed t)
    (hpool : t.netbufPool = s.netbufPool) (hroom : t.ring.length ≤ c.els)
    (horder : delivered ++ t.chain.map Frag.data = received) :
    Base c { s with toStore := t, received := received, delivered := delivered } := by
  obtain ⟨hfilling, hnoPool, hremoved⟩ := hw.ne
  exact ⟨hp, fun hn => hb (h.backed hn), horder, hroom, h.index, fun _ => hpool ▸ h.pool hw,
    fun hf => absurd hf hfilling, fun hn => absurd hn hnoPool, fun hr => absurd hr hremoved⟩

theorem Sound.not_refilled (h : Sound c s) (hp : s.poll ≠ .idle) : s.refilled = false :=
  Bool.eq_false_iff.2 fun hr => hp (h.refilled hr).1

/-- After an attempt to queue a page a loop goes on with one descriptor less, or ends. -/
theorem Queued.length {t : Store × Bool} {wants : Prop} (h : Queued c s.toStore t wants)
    (ht : t.2 = true) : t.1.ring.length = s.ring.length + 1 ∧ s.ring.length < c.els := by
  rcases h.ring with ⟨-, hf, -⟩ | ⟨⟨p, hp⟩, -, hlt, -⟩
  · exact absurd (hf.symm.trans ht) Bool.false_ne_true
  · rw [hp, List.length_append]
    exact ⟨rfl, hlt⟩

theorem Sound.queued {t : Store × Bool} {wants : Prop} (h : Sound c s) (hw : s.phase.Working)
    (hq : Queued c s.toStore t wants) :
    Base c { s with toStore := t.1 } := by
  refine h.toBase.store hw hq.pages hq.backed hq.pool ?_ (hq.chain ▸ h.inOrder)
  rcases hq.ring with ⟨hr, -⟩ | ⟨⟨p, hp⟩, -, hlt, -⟩
  · exact hr ▸ h.room
  · rw [hp, List.length_append]
    exact hlt

theorem sound_peek {peak i : ℕ} {xfers : Bool} (h : Sound c s)
    (hpoll : s.poll = .queueing left peak i) : Sound c (s.peek c left peak i xfers) := by
  have hne : s.poll ≠ .idle := fun hi => Poll.noConfusion (hpoll.symm.trans hi)
  have hw := h.working hne
  have hr := h.not_refilled hne
  have hchain := h.chain fun hi => Poll.noConfusion (hpoll.symm.trans hi)
  have hleft : s.phase = .running → s.ring.length + left = c.els := fun hp =>
    h.left hp left (by rw [hpoll]; rfl)
  have hlt : i < s.netbufPool.length := (h.pool hw).symm ▸ h.peeking left peak i hpoll
  unfold St.peek
  rw [List.getElem?_eq_getElem hlt]
  dsimp only
  split_ifs with hone hpeak
  · have hq := h.pages.reclaim (c := c) (x := xfers) (List.getElem_mem hlt) hone
    have hbase := h.queued hw hq
    generalize s.toStore.reclaim c s.netbufPool[i] xfers = t at hq hbase
    have hchain' : t.1.chain = [] := hq.chain.trans hchain
    obtain ⟨t, _ | _⟩ := t
    · exact hbase.pollDone hchain' hw fun hf => Bool.noConfusion hf
    · obtain ⟨hlen, hroom⟩ : t.ring.length = s.ring.length + 1 ∧ s.ring.length < c.els :=
        hq.length rfl
      have hnext : Base c { s with toStore := t, currentIndex := c.nextIndex i } :=
        { hbase with index := nextIndex_lt c i }
      refine hnext.queueMore hchain' hw (fun hp => ?_) hr
      have hsum := hleft hp
      change t.ring.length + (left - 1) = c.els
      omega
  · exact { h with
      chain := fun _ => hchain
      idle := fun hn => absurd hw hn
      peeking := fun _ _ _ hq => by cases hq; exact nextIndex_lt c i
      left := fun hp _ hl => by cases hl; exact hleft hp
      refilled := fun hr' => absurd (hr.symm.trans hr') Bool.false_ne_true }
  · exact h.toBase.allocMore hchain hw hleft hr

theorem sound_tmpAlloc {a : Alloc} {xfers : Bool} (h : Sound c s)
    (hpoll : s.poll = .allocating left) (hfresh : s.Fresh a) :
    Sound c (s.mhiNetdevTmpAlloc c left a xfers) := by
  have hne : s.poll ≠ .idle := fun hi => Poll.noConfusion (hpoll.symm.trans hi)
  have hw := h.working hne
  have hr := h.not_refilled hne
  have hchain := h.chain fun hi => Poll.noConfusion (hpoll.symm.trans hi)
  have hq := h.pages.tmpAlloc (c := c) (x := xfers) hfresh
  have hbase := h.queued hw hq
  unfold St.mhiNetdevTmpAlloc
  generalize s.toStore.tmpAlloc c a xfers = t at hq hbase
  have hchain' : t.1.chain = [] := hq.chain.trans hchain
  obtain ⟨t, _ | _⟩ := t
  · exact hbase.pollDone hchain' hw fun hf => Bool.noConfusion hf
  · obtain ⟨hlen, hroom⟩ : t.ring.length = s.ring.length + 1 ∧ s.ring.length < c.els :=
      hq.length rfl
    refine hbase.allocMore hchain' hw (fun hp => ?_) hr
    have hsum := h.left hp left (by rw [hpoll]; rfl)
    change t.ring.length + (left - 1) = c.els
    omega

theorem sound_polled (h : Sound c s) (hpoll : s.poll = .polling) (ok : Bool) :
    Sound c (s.polled c ok) := by
  have hne : s.poll ≠ .idle := fun hi => Poll.noConfusion (hpoll.symm.trans hi)
  have hw := h.working hne
  have hbase : Base c s.deliver :=
    h.toBase.store (t := { s.toStore with chain := [], stack := s.stack ++ s.chain }) hw
      h.pages.deliver id rfl h.room ((List.append_nil _).trans h.inOrder)
  unfold St.polled
  split_ifs
  · refine hbase.queueMore rfl hw (fun _ => ?_) (h.not_refilled hne)
    exact Nat.add_sub_cancel' h.room
  · exact hbase.pollDone rfl hw fun hf => Bool.noConfusion hf

/-- The first page that is queued is taken out. -/
theorem Sound.pop {p : ℕ} {ring : List ℕ} (h : Sound c s) (hw : s.phase.Working)
    (hring : s.ring = p :: ring) :
    ∃ m, { s.toStore with ring := ring }.unmapBuf p = { s.toStore with ring := ring, mapped := m }
      ∧ Pages { s.toStore with ring := ring, mapped := m } [p] ∧ ring.length ≤ c.els
      ∧ ∀ q ∈ ring, q ∈ s.ring := by
  obtain ⟨m, hm, hpages⟩ := h.pages.pop (h.backed hw.ne.2.2) hring
  have hroom : (p :: ring).length ≤ c.els := hring ▸ h.room
  exact ⟨m, hm, hpages, Nat.le_of_succ_le hroom, fun q hq => hring ▸ List.mem_cons_of_mem p hq⟩

/-- It comes back without a packet. -/
theorem Sound.drop {p : ℕ} {ring : List ℕ} (h : Sound c s) (hw : s.phase.Working)
    (hring : s.ring = p :: ring) : ∃ t, { s.toStore with ring := ring }.dropBuf p = t
      ∧ t.chain = s.chain ∧ Base c { s with toStore := t } := by
  obtain ⟨m, hm, hpages, hroom, hsub⟩ := h.pop hw hring
  obtain ⟨r, hr, hpages⟩ := hpages.free
  refine ⟨{ s.toStore with ring := ring, mapped := m, refcount := r }, ?_, rfl, ?_⟩
  · rw [Store.dropBuf, hm, hr]
  · exact h.toBase.store hw hpages (fun hb q hq => hb q (hsub q hq)) rfl hroom h.inOrder

theorem sound_complete {p n : ℕ} {ring : List ℕ} (h : Sound c s) (hpoll : s.poll = .polling)
    (hphase : s.phase = .running) (hring : s.ring = p :: ring) (allocs : Bool) :
    Sound c ({ s with ring := ring }.mhiNetdevXferDlCb p n allocs) := by
  have hw : s.phase.Working := Or.inl hphase
  have hr := h.not_refilled fun hi => Poll.noConfusion (hpoll.symm.trans hi)
  unfold St.mhiNetdevXferDlCb
  split_ifs
  · obtain ⟨m, hm, hpages, hroom, hsub⟩ := h.pop hw hring
    have horder : s.delivered ++ (s.chain ++ [Frag.mk p ((s.mem p).take n)]).map Frag.data
        = s.received ++ [(s.mem p).take n] := by
      rw [List.map_append, ← List.append_assoc, h.inOrder]
      rfl
    refine Base.polling ?_ hpoll hw hr
    dsimp only [Store.chainBuf]
    rw [hm]
    exact h.toBase.store hw (hpages.chain n) (fun hb q hq => hb q (hsub q hq)) rfl hroom horder
  · obtain ⟨t, ht, -, hbase⟩ := h.drop hw hring
    dsimp only
    rw [ht]
    exact Base.polling hbase hpoll hw hr

theorem sound_fill {a : Alloc} (h : Sound c s) (hphase : s.phase = .filling) (hfresh : s.Fresh a) :
    Sound c (s.fillPool c a) := by
  obtain ⟨hlt, hring, hstack⟩ := h.filling hphase
  have hidle : s.poll = .idle := h.idle fun hw => hw.ne.1 hphase
  have hchain : s.chain = [] := h.chain fun hi => Poll.noConfusion (hidle.symm.trans hi)
  have hnone : ∀ {q : ℕ} {r : Prop}, q ∈ s.ring → r := fun hq =>
    absurd (hring ▸ hq) List.not_mem_nil
  have hr : s.refilled = true → False := fun hr => (h.refilled hr).2.1 hphase
  unfold St.fillPool
  rcases mhiNetdevAlloc_cases s.toStore a .sync hfresh with ⟨ha, -⟩ | ⟨p, hpage, -, ha⟩
  · rw [ha]
    obtain ⟨r, m, heq, hpages⟩ := h.pages.giveUp (List.reverse_perm s.netbufPool)
    dsimp only
    rw [heq]
    exact Base.idle ⟨hpages, fun _ q hq => hnone hq, h.inOrder, h.room, h.index,
      fun hw => absurd rfl hw.ne.2.1, fun hf => Phase.noConfusion hf, fun _ => ⟨rfl, hring, hstack⟩,
      fun hf => Phase.noConfusion hf⟩ hidle hchain fun hr' => (hr hr').elim
  · rw [ha]
    have hpages := h.pages.fill hring (hfresh p hpage)
    have hlen : (s.netbufPool ++ [p]).length = s.netbufPool.length + 1 := List.length_append
    dsimp only
    split_ifs with hfull
    · exact Base.idle ⟨hpages, fun _ q hq => hnone hq, h.inOrder, h.room, h.index,
        fun _ => hlen.trans hfull, fun hf => Phase.noConfusion hf, fun hf => Phase.noConfusion hf,
        fun hf => Phase.noConfusion hf⟩ hidle hchain fun hr' => (hr hr').elim
    · refine Base.idle ⟨hpages, fun _ q hq => hnone hq, h.inOrder, h.room, h.index,
        fun hw => absurd rfl hw.ne.1, fun _ => ⟨?_, hring, hstack⟩, fun hf => Phase.noConfusion hf,
        fun hf => Phase.noConfusion hf⟩ hidle hchain fun hr' => (hr hr').elim
      change (s.netbufPool ++ [p]).length < c.poolSize
      omega

theorem sound_remove (h : Sound c s) (hpoll : s.poll = .idle) :
    Sound c { s with toStore := s.toStore.mhiNetdevFreePool, phase := .removed } := by
  obtain ⟨r, m, heq, hpages⟩ := h.pages.giveUp (List.Perm.refl s.netbufPool)
  rw [Store.mhiNetdevFreePool, heq]
  exact Base.idle ⟨hpages, fun hn => absurd rfl hn, h.inOrder, h.room, h.index,
    fun hw => absurd rfl hw.ne.2.2, fun hf => Phase.noConfusion hf, fun hf => Phase.noConfusion hf,
    fun _ => rfl⟩ hpoll (h.chain fun hi => Poll.noConfusion (hpoll.symm.trans hi))
    fun _ => ⟨fun hf => Phase.noConfusion hf, fun hf => Phase.noConfusion hf⟩

theorem working_of_notMem {p : Phase} (hp : p ∉ [.filling, .noPool, .removed]) : p.Working := by
  unfold Phase.Working
  revert hp
  cases p <;> decide

theorem sound_schedule (h : Sound c s) (hphase : s.phase ∉ [.filling, .noPool, .removed]) :
    Sound c { s with poll := .polling, refilled := false } :=
  Base.polling { h.toBase with } rfl (working_of_notMem hphase) rfl

theorem sound_clone {f : Frag} (h : Sound c s) (hf : f ∈ s.stack) :
    Sound c { s with toStore := { s.toStore.getPage f.page with stack := s.stack ++ [f] } } :=
  { h with
    pages := h.pages.clone hf
    filling := fun hp => absurd ((h.filling hp).2.2 ▸ hf) List.not_mem_nil
    noPool := fun hp => absurd ((h.noPool hp).2.2 ▸ hf) List.not_mem_nil }

theorem sound_consume {f : Frag} (h : Sound c s) (hf : f ∈ s.stack) : Sound c { s with
    toStore := { s.toStore with stack := s.stack.erase f }.freePages f.page } := by
  obtain ⟨r, hr, hpages⟩ := (h.pages.consume hf).free
  rw [hr]
  exact { h with
    pages := hpages
    filling := fun hp => absurd ((h.filling hp).2.2 ▸ hf) List.not_mem_nil
    noPool := fun hp => absurd ((h.noPool hp).2.2 ▸ hf) List.not_mem_nil }

/-- The channel is suspended, or has been reset: only the phase changes. -/
theorem sound_phase (h : Sound c s) (hw : s.phase.Working) {p : Phase}
    (hp : p = .resetting ∨ p = .reset) : Sound c { s with phase := p } := by
  have hw' : p.Working := Or.inr hp
  have hne : p ≠ .running := by rcases hp with rfl | rfl <;> decide
  exact { h with
    backed := fun _ => h.backed hw.ne.2.2
    pool := fun _ => h.pool hw
    filling := fun hf => absurd hf hw'.ne.1
    noPool := fun hf => absurd hf hw'.ne.2.1
    removed := fun hf => absurd hf hw'.ne.2.2
    idle := fun hn => absurd hw' hn
    left := fun hf => absurd hf hne
    refilled := fun hr => ⟨(h.refilled hr).1, hw'.ne.1, fun hf => absurd hf hne⟩ }

theorem sound_resetOne {p : ℕ} {ring : List ℕ} (h : Sound c s) (hphase : s.phase = .resetting)
    (hring : s.ring = p :: ring) :
    Sound c { s with toStore := { s.toStore with ring := ring }.dropBuf p } := by
  have hw : s.phase.Working := Or.inr (Or.inl hphase)
  have hne : s.phase ≠ .running := fun hr => Phase.noConfusion (hphase.symm.trans hr)
  obtain ⟨t, ht, hchain, hbase⟩ := h.drop hw hring
  rw [ht]
  exact { hbase with
    chain := fun hn => hchain.trans (h.chain hn)
    idle := h.idle
    peeking := h.peeking
    left := fun hr => absurd hr hne
    refilled := fun hr => ⟨(h.refilled hr).1, hw.ne.1, fun hr => absurd hr hne⟩ }

end Polls

/-! ## Runs -/

/-- The ring is empty once the channel has been reset. -/
def Cleared (s : St) : Prop := s.phase = .reset ∨ s.phase = .removed → s.ring = []

section Runs

variable {c : Cfg} {s s' : St} {i : Input} {left : ℕ}

/-- A step that leaves the ring alone. -/
theorem cleared_of_same (hphase : s'.phase = s.phase) (hring : s'.ring = s.ring)
    (hq : s.queues i = false) : Cleared s' ↔ Cleared s ∧ Timely s i := by
  rw [Cleared, hphase, hring]
  exact (and_iff_left fun _ => hq).symm

/-- A step before the reset. -/
theorem cleared_of_early (hearly : ¬ (s.phase = .reset ∨ s.phase = .removed)) (hs : Cleared s') :
    Cleared s' ↔ Cleared s ∧ Timely s i :=
  iff_of_true hs ⟨fun h => absurd h hearly, fun h => absurd (Or.inl h) hearly⟩

/-- A step that may queue a page: after the reset there is room for it. -/
theorem cleared_of_queued {t : Store × Bool} {wants : Prop} (hw : s.phase.Working)
    (hq : Queued c s.toStore t wants) (hphase : s'.phase = s.phase) (hring : s'.ring = t.1.ring)
    (hwants : s.queues i = true ↔ wants) : Cleared s' ↔ Cleared s ∧ Timely s i := by
  by_cases hreset : s.phase = .reset
  · have hcleared : ∀ {s : St}, s.phase = .reset → (Cleared s ↔ s.ring = []) := fun hp =>
      ⟨fun h => h (Or.inl hp), fun h _ => h⟩
    have htimely : Timely s i ↔ ¬ wants := by
      rw [Timely, ← Bool.not_eq_true, hwants]
      exact ⟨fun h => h hreset, fun h _ => h⟩
    rw [hcleared (hphase.trans hreset), hcleared hreset, htimely, hring]
    rcases hq.ring with ⟨hsame, -, hfull⟩ | ⟨⟨p, hp⟩, -, -, hwant⟩
    · rw [hsame]
      refine ⟨fun hnil => ⟨hnil, fun hwant => hfull ⟨?_, hwant⟩⟩, fun h => h.1⟩
      rw [hnil]
      exact c.els_pos
    · refine iff_of_false (fun hnil => ?_) fun h => h.2 hwant
      exact List.append_ne_nil_of_right_ne_nil _ (List.cons_ne_nil p []) (hp ▸ hnil)
  · have hearly : ¬ (s.phase = .reset ∨ s.phase = .removed) := not_or.2 ⟨hreset, hw.ne.2.2⟩
    exact cleared_of_early hearly fun hl => absurd (hphase ▸ hl) hearly

theorem queueMore_frame (s : St) (left : ℕ) :
    (s.queueMore left).phase = s.phase ∧ (s.queueMore left).ring = s.ring := by
  unfold St.queueMore
  split_ifs <;> exact ⟨rfl, rfl⟩

theorem allocMore_frame (s : St) (left : ℕ) :
    (s.allocMore left).phase = s.phase ∧ (s.allocMore left).ring = s.ring := by
  unfold St.allocMore
  split_ifs <;> exact ⟨rfl, rfl⟩

theorem polled_frame (c : Cfg) (s : St) (ok : Bool) :
    (s.polled c ok).phase = s.phase ∧ (s.polled c ok).ring = s.ring := by
  unfold St.polled
  split_ifs
  · exact queueMore_frame _ _
  · exact ⟨rfl, rfl⟩

theorem cleared_peek {peak j : ℕ} {xfers : Bool} (h : Sound c s)
    (hpoll : s.poll = .queueing left peak j) :
    Cleared (s.peek c left peak j xfers) ↔ Cleared s ∧ Timely s (.peek xfers) := by
  have hw := h.working fun hi => Poll.noConfusion (hpoll.symm.trans hi)
  have hlt : j < s.netbufPool.length := (h.pool hw).symm ▸ h.peeking left peak j hpoll
  have hqueues : s.queues (.peek xfers) = true ↔ xfers = true ∧ s.refcount s.netbufPool[j] = 1 := by
    simp only [St.queues, hpoll, List.getElem?_eq_getElem hlt, Option.any_some, Bool.and_eq_true,
      beq_iff_eq]
  have hbusy : s.refcount s.netbufPool[j] ≠ 1 → s.queues (.peek xfers) = false := fun hb =>
    Bool.eq_false_iff.2 fun hq => hb (hqueues.1 hq).2
  unfold St.peek
  rw [List.getElem?_eq_getElem hlt]
  dsimp only
  split_ifs with hone hpeak
  · have hq := h.pages.reclaim (c := c) (x := xfers) (List.getElem_mem hlt) hone
    have hwants : s.queues (.peek xfers) = true ↔ xfers = true := hqueues.trans (and_iff_left hone)
    generalize s.toStore.reclaim c s.netbufPool[j] xfers = t at hq
    obtain ⟨t, _ | _⟩ := t
    · exact cleared_of_queued hw hq rfl rfl hwants
    · exact cleared_of_queued hw hq (queueMore_frame _ _).1 (queueMore_frame _ _).2 hwants
  · exact cleared_of_same rfl rfl (hbusy hone)
  · exact cleared_of_same (allocMore_frame _ _).1 (allocMore_frame _ _).2 (hbusy hone)

theorem cleared_tmpAlloc {a : Alloc} {xfers : Bool} (h : Sound c s)
    (hpoll : s.poll = .allocating left) (hfresh : s.Fresh a) :
    Cleared (s.mhiNetdevTmpAlloc c left a xfers) ↔ Cleared s ∧ Timely s (.tmpAlloc a xfers) := by
  have hw := h.working fun hi => Poll.noConfusion (hpoll.symm.trans hi)
  have hq := h.pages.tmpAlloc (c := c) (x := xfers) hfresh
  have hwants : s.queues (.tmpAlloc a xfers) = true
      ↔ a.page.isSome ∧ a.maps = true ∧ xfers = true := by
    simp only [St.queues, Bool.and_eq_true]
  unfold St.mhiNetdevTmpAlloc
  generalize s.toStore.tmpAlloc c a xfers = t at hq
  obtain ⟨t, _ | _⟩ := t
  · exact cleared_of_queued hw hq rfl rfl hwants
  · exact cleared_of_queued hw hq (allocMore_frame _ _).1 (allocMore_frame _ _).2 hwants

theorem fillPool_early (c : Cfg) (s : St) (a : Alloc) :
    ¬ ((s.fillPool c a).phase = .reset ∨ (s.fillPool c a).phase = .removed) := by
  unfold St.fillPool
  split
  · dsimp only
    split_ifs <;> decide
  · dsimp only
    decide

theorem mhiNetdevXferDlCb_phase (s : St) (p n : ℕ) (allocs : Bool) :
    (s.mhiNetdevXferDlCb p n allocs).phase = s.phase := by
  unfold St.mhiNetdevXferDlCb
  split_ifs <;> rfl

theorem freePages_ring (t : Store) (p : ℕ) : (t.freePages p).ring = t.ring := by
  unfold Store.freePages
  split <;> rfl

theorem sound_step (h : Sound c s) (hs : step c s i = some s') :
    Sound c s' ∧ (Cleared s' ↔ Cleared s ∧ Timely s i) := by
  have hearly : ∀ {p : Phase}, s.phase = p → ¬ (p = .reset ∨ p = .removed) →
      ¬ (s.phase = .reset ∨ s.phase = .removed) := fun hp hn => hp ▸ hn
  cases i with
  | fill a =>
    obtain ⟨⟨hphase, hfresh⟩, hs⟩ := Option.ite_none_right_eq_some.1 hs
    cases hs
    exact ⟨sound_fill h hphase hfresh, cleared_of_early (hearly hphase (by decide)) fun hl =>
      absurd hl (fillPool_early c s a)⟩
  | schedule =>
    obtain ⟨⟨-, hphase⟩, hs⟩ := Option.ite_none_right_eq_some.1 hs
    cases hs
    exact ⟨sound_schedule h hphase, cleared_of_same rfl rfl rfl⟩
  | dma p data =>
    obtain ⟨⟨hp, -⟩, hs⟩ := Option.ite_none_right_eq_some.1 hs
    cases hs
    exact ⟨{ h with pages := h.pages.write hp data }, cleared_of_same rfl rfl rfl⟩
  | complete n allocs =>
    cases hring : s.ring with
    | nil =>
      simp only [step, hring] at hs
      cases hs
    | cons p ring =>
      simp only [step, hring] at hs
      obtain ⟨⟨hpoll, hphase, -⟩, hs⟩ := Option.ite_none_right_eq_some.1 hs
      cases hs
      have hnot := hearly hphase (by decide)
      refine ⟨sound_complete h hpoll hphase hring allocs, cleared_of_early hnot fun hl => ?_⟩
      rw [mhiNetdevXferDlCb_phase] at hl
      exact absurd hl hnot
  | polled ok =>
    obtain ⟨hpoll, hs⟩ := Option.ite_none_right_eq_some.1 hs
    cases hs
    obtain ⟨hphase, hring⟩ := polled_frame c s ok
    exact ⟨sound_polled h hpoll ok, cleared_of_same hphase hring rfl⟩
  | peek xfers =>
    cases hpoll : s.poll with
    | queueing left peak j =>
      simp only [step, hpoll] at hs
      cases hs
      exact ⟨sound_peek h hpoll, cleared_peek h hpoll⟩
    | idle | polling | allocating =>
      simp only [step, hpoll] at hs
      cases hs
  | tmpAlloc a xfers =>
    cases hpoll : s.poll with
    | allocating left =>
      simp only [step, hpoll] at hs
      obtain ⟨hfresh, hs⟩ := Option.ite_none_right_eq_some.1 hs
      cases hs
      exact ⟨sound_tmpAlloc h hpoll hfresh, cleared_tmpAlloc h hpoll hfresh⟩
    | idle | polling | queueing =>
      simp only [step, hpoll] at hs
      cases hs
  | clone f =>
    obtain ⟨hf, hs⟩ := Option.ite_none_right_eq_some.1 hs
    cases hs
    exact ⟨sound_clone h hf, cleared_of_same rfl rfl rfl⟩
  | consume f =>
    obtain ⟨hf, hs⟩ := Option.ite_none_right_eq_some.1 hs
    cases hs
    exact ⟨sound_consume h hf, cleared_of_same rfl (freePages_ring _ _) rfl⟩
  | suspend =>
    obtain ⟨hphase, hs⟩ := Option.ite_none_right_eq_some.1 hs
    cases hs
    exact ⟨sound_phase h (Or.inl hphase) (Or.inl rfl),
      cleared_of_early (hearly hphase (by decide)) fun hl => by rcases hl with hl | hl <;> cases hl⟩
  | resetOne =>
    cases hring : s.ring with
    | nil =>
      simp only [step, hring] at hs
      cases hs
    | cons p ring =>
      simp only [step, hring] at hs
      obtain ⟨hphase, hs⟩ := Option.ite_none_right_eq_some.1 hs
      cases hs
      have hnot := hearly hphase (by decide)
      exact ⟨sound_resetOne h hphase hring, cleared_of_early hnot fun hl => absurd hl hnot⟩
  | resetEnd =>
    obtain ⟨⟨hphase, hring⟩, hs⟩ := Option.ite_none_right_eq_some.1 hs
    cases hs
    exact ⟨sound_phase h (Or.inr (Or.inl hphase)) (Or.inr rfl),
      cleared_of_early (hearly hphase (by decide)) fun _ => hring⟩
  | remove =>
    obtain ⟨⟨hphase, hpoll⟩, hs⟩ := Option.ite_none_right_eq_some.1 hs
    cases hs
    obtain ⟨r, m, heq, -⟩ := h.pages.giveUp (List.Perm.refl s.netbufPool)
    have hring : s.toStore.mhiNetdevFreePool.ring = s.ring := by
      rw [Store.mhiNetdevFreePool, heq]
    have hbefore : Cleared s ↔ s.ring = [] := ⟨fun hc => hc (Or.inl hphase), fun hnil _ => hnil⟩
    refine ⟨sound_remove h hpoll, Iff.trans ?_ (and_iff_left fun _ => rfl).symm⟩
    exact ⟨fun hc => hbefore.2 (hring ▸ hc (Or.inr rfl)), fun hc _ => hring.trans (hbefore.1 hc)⟩

theorem Sound.right (h : Sound c s) : Right c s :=
  ⟨h.pages.counts, h.pages.queuedOnce, h.pages.apart, h.pages.contents, h.inOrder,
    fun hphase hr => (h.refilled hr).2.2 hphase, h.pages.bug⟩

/-- Without a pool, what the driver has left is in the ring. -/
theorem Sound.gone_iff (h : Sound c s) (hpool : s.netbufPool = []) (hw : ¬ s.phase.Working) :
    Gone s ↔ s.ring = [] := by
  have hchain : s.chain = [] := h.chain fun hi => Poll.noConfusion ((h.idle hw).symm.trans hi)
  have hcounts : Owned s.refcount (s.ring ++ s.stack.map Frag.page) := by
    have howners := h.pages.counts
    rw [List.nil_append, Store.owners, hpool, hchain, List.nil_append, List.nil_append] at howners
    exact howners
  refine ⟨fun hgone => ?_, fun hring => ⟨?_, fun p => Bool.eq_false_iff.2 fun hm => ?_⟩⟩
  · refine List.eq_nil_iff_forall_not_mem.2 fun p hp => ?_
    have hboth := (hcounts p).symm.trans (hgone.1 p)
    rw [List.count_append] at hboth
    have hpos := List.count_pos_iff.2 hp
    omega
  · rw [hring] at hcounts
    exact hcounts
  · rcases (h.pages.mapped p).1 hm with hp | hp
    · exact List.not_mem_nil (hpool ▸ hp)
    · exact List.not_mem_nil (hring ▸ hp.1)

theorem sound_initial (c : Cfg) (mem : ℕ → Bytes) : Sound c (initial mem) := by
  have hnone : ∀ {p : ℕ} {r : Prop}, p ∈ ([] : List ℕ) → r := fun hp => absurd hp List.not_mem_nil
  have hfrag : ∀ {f : Frag} {r : Prop}, f ∈ ([] : List Frag) → r :=
    fun hf => absurd hf List.not_mem_nil
  have hpages : Pages (initial mem).toStore [] :=
    ⟨fun _ => rfl, fun _ => iff_of_false Bool.false_ne_true (not_or.2 ⟨hnone, fun h => hnone h.1⟩),
      fun _ hp => hnone hp, List.nodup_nil, List.nodup_nil, fun _ hp => hnone hp,
      fun _ hf => hfrag hf, fun _ hf => hfrag hf, rfl⟩
  exact Base.idle ⟨hpages, fun _ _ hp => hnone hp, rfl, Nat.zero_le _, poolSize_pos c,
    fun hw => absurd rfl hw.ne.1, fun _ => ⟨poolSize_pos c, rfl, rfl⟩,
    fun hf => Phase.noConfusion hf, fun hf => Phase.noConfusion hf⟩ rfl rfl
    fun hr => Bool.noConfusion hr

/-- Whatever the modem, the stack and the removal of the device do in the meantime; and what is left
when the device is gone. -/
theorem pool_run {mem : ℕ → Bytes} {is : List Input}
    (hrun : Runs.exec (step c) (initial mem) is = some s) :
    Right c s ∧ (s.phase = .noPool → Gone s)
      ∧ (s.phase = .removed → (Gone s ↔ Runs.Meets (step c) Timely (initial mem) is)) := by
  have hsound := Runs.exec_keeps (fun _ _ _ h hs => (sound_step h hs).1) (sound_initial c mem) hrun
  have hcleared := Runs.end_iff (A := Cleared) (fun _ _ _ h hs => sound_step h hs)
    (sound_initial c mem) hrun
  refine ⟨hsound.right, fun hphase => ?_, fun hphase => ?_⟩
  · obtain ⟨hpool, hring, -⟩ := hsound.noPool hphase
    exact (hsound.gone_iff hpool fun hw => hw.ne.2.1 hphase).2 hring
  · rw [hsound.gone_iff (hsound.removed hphase) fun hw => hw.ne.2.2 hphase]
    have hend : Cleared s ↔ s.ring = [] := ⟨fun h => h (Or.inr hphase), fun h _ => h⟩
    have hstart : Cleared (initial mem) := fun _ => rfl
    rw [← hend, hcleared, and_iff_right hstart]

/-- Two packets come, the stack has the first one twice and keeps it, and a page for a third is
queued when the channel has been reset. -/
def lateRun : List Input :=
  [.fill ⟨some 1, true⟩, .fill ⟨some 2, true⟩, .schedule, .polled true, .peek true,
    .dma 1 [7, 8], .schedule, .complete 2 true, .polled true, .clone ⟨1, [7, 8]⟩, .peek true,
    .dma 2 [9, 9], .consume ⟨1, [7, 8]⟩, .schedule, .complete 1 true, .polled true, .suspend,
    .resetEnd, .peek true, .peek true, .peek true, .peek true, .tmpAlloc ⟨some 3, true⟩ true,
    .remove]

def oneTre : Cfg := ⟨1, 2, Nat.one_pos⟩

theorem pool_run_lateRun : ∃ s, Runs.exec (step oneTre) (initial fun _ => []) lateRun = some s
    ∧ s.stack = [⟨1, [7, 8]⟩, ⟨2, [9]⟩] ∧ s.ring = [3] ∧ Right oneTre s ∧ ¬ Gone s := by
  have hrun : Runs.exec (step oneTre) (initial fun _ => []) lateRun = some _ := rfl
  obtain ⟨hright, -, hgone⟩ := pool_run hrun
  refine ⟨_, hrun, rfl, rfl, hright, fun hg => ?_⟩
  have hlate : ¬ Runs.Meets (step oneTre) Timely (initial fun _ => []) lateRun := by decide
  exact hlate ((hgone rfl).1 hg)

end Runs

end NetPool

end BananaWrt
