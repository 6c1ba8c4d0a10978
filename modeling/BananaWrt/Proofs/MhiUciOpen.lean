import BananaWrt.MhiUciOpen
import Mathlib.Data.List.Nodup
import Mathlib.Tactic.SplitIfs

/-!
# The life of a character device

As long as every open that starts the channels goes through, and the device is not removed while
only the hidden reference is left, the device is in one of four phases (`Phase`): nothing has been
allocated, the channels are started, the device has been removed with files open, or it is gone.
-/

namespace BananaWrt

namespace UciOpen

variable {env : OpenEnv} {s s' : UciDev} {i : Input}

/-- If all pages are allocated, they are the next blocks. -/
theorem allocPages_ok : ∀ (k i next : ℕ), (∀ j < k, env.pageAllocated (i + j)) →
    allocPages env k i next = (next + k, (List.range' next k).map some, true)
  | 0, _, _, _ => rfl
  | k + 1, i, next, h => by
    have hrest := allocPages_ok k (i + 1) (next + 1) fun j hj => by
      rw [Nat.add_assoc, Nat.add_comm 1 j]
      exact h (j + 1) (Nat.succ_lt_succ hj)
    have hfirst := h 0 (Nat.succ_pos k)
    rw [Nat.add_zero] at hfirst
    rw [allocPages, if_pos hfirst, hrest, List.range'_succ, List.map_cons]
    dsimp only
    rw [Nat.add_assoc, Nat.add_comm 1 k]

theorem allocPages_fails : ∀ {k i next j : ℕ}, j < k → ¬ env.pageAllocated (i + j) →
    (allocPages env k i next).2.2 = false
  | 0, _, _, _, hj, _ => absurd hj (Nat.not_lt_zero _)
  | k + 1, i, next, j, hj, hno => by
    rw [allocPages]
    by_cases hfirst : env.pageAllocated i
    · rw [if_pos hfirst]
      rcases j with _ | j
      · exact absurd hfirst hno
      · refine allocPages_fails (Nat.lt_of_succ_lt_succ hj) ?_
        rwa [Nat.add_assoc, Nat.add_comm 1 j]
    · rw [if_neg hfirst]

theorem queueLoop_eq_zero_iff : ∀ {k i : ℕ} {ret : ℤ},
    queueLoop env k i ret = 0 ↔ (∀ j < k, env.queueRet (i + j) = 0) ∧ (k = 0 → ret = 0)
  | 0, _, _ => ⟨fun h => ⟨fun _ hj => absurd hj (Nat.not_lt_zero _), fun _ => h⟩, fun h => h.2 rfl⟩
  | k + 1, i, ret => by
    rw [queueLoop]
    by_cases hfirst : env.queueRet i ≠ 0
    · rw [if_pos hfirst]
      exact iff_of_false hfirst fun h => hfirst (h.1 0 (Nat.succ_pos k))
    · rw [if_neg hfirst, queueLoop_eq_zero_iff]
      constructor
      · rintro ⟨hall, -⟩
        refine ⟨fun j hj => ?_, nofun⟩
        rcases j with _ | j
        · exact not_not.1 hfirst
        · have := hall j (Nat.lt_of_succ_lt_succ hj)
          rwa [Nat.add_assoc, Nat.add_comm 1 j] at this
      · rintro ⟨hall, -⟩
        refine ⟨fun j hj => ?_, fun _ => rfl⟩
        rw [Nat.add_assoc, Nat.add_comm 1 j]
        exact hall (j + 1) (Nat.succ_lt_succ hj)

/-- The table is the next block, and its pages those after it. -/
theorem mhiQueueInbound_ok (hbuf : s.uciBuf = none) (h : env.InboundOk) :
    s.mhiQueueInbound env = ({ s with
      uciBuf := some ⟨s.next, (List.range' (s.next + 1) (env.nrTrbs + 1)).map some⟩
      next := s.next + 1 + (env.nrTrbs + 1) }, 0) := by
  obtain ⟨hpos, htable, hpages, hqueue⟩ := h
  have halloc := allocPages_ok (env.nrTrbs + 1) 0 (s.next + 1) fun j hj => by
    rw [Nat.zero_add]
    exact hpages j (Nat.le_of_lt_succ hj)
  have hloop : queueLoop env env.nrTrbs 0 (- EIO) = 0 := by
    refine queueLoop_eq_zero_iff.2 ⟨fun j hj => ?_, fun h0 => absurd h0 (Nat.ne_of_gt hpos)⟩
    rw [Nat.zero_add]
    exact hqueue j hj
  unfold UciDev.mhiQueueInbound
  rw [hbuf]
  dsimp only
  rw [if_neg (not_not_intro htable), halloc, hloop]
  exact if_neg (not_not_intro rfl)

theorem mhiQueueInbound_fails (hbuf : s.uciBuf = none) (h : ¬ env.InboundOk) :
    (s.mhiQueueInbound env).2 ≠ 0 ∧ (s.mhiQueueInbound env).1.refCount = s.refCount := by
  have hENOMEM : - ENOMEM ≠ 0 := by decide
  unfold UciDev.mhiQueueInbound
  rw [hbuf]
  dsimp only
  split_ifs with htable hpages
  · refine ⟨fun hzero => h ?_, rfl⟩
    obtain ⟨hqueue, hret⟩ := queueLoop_eq_zero_iff.1 hzero
    refine ⟨Nat.pos_of_ne_zero fun h0 => absurd (hret h0) (by decide), htable,
      fun j hj => ?_, fun j hj => ?_⟩
    · by_contra hno
      rw [← Nat.zero_add j] at hno
      rw [allocPages_fails (Nat.lt_succ_of_le hj) hno] at hpages
      cases hpages
    · have := hqueue j hj
      rwa [Nat.zero_add] at this
  · exact ⟨hENOMEM, rfl⟩
  · exact ⟨hENOMEM, rfl⟩

/-- The table and its pages are all blocks that have been allocated, each once. -/
def Owns (table : BufTable) (next : ℕ) : Prop :=
  (table.pages.filterMap id ++ [table.block]).Perm (List.range next)

/-- The phases of a device: as it was probed; started, with a hidden reference; removed with files
open; freed. -/
inductive Phase : UciDev → Prop where
  | fresh : Phase probed
  | opened (table : BufTable) (files next : ℕ) (h : Owns table next) :
    Phase ⟨true, true, files + 1, true, some table, files, false, next, []⟩
  | removed (table : BufTable) (files next : ℕ) (h : Owns table next) :
    Phase ⟨false, false, files + 1, false, some table, files + 1, false, next, []⟩
  | gone (uciBuf : Option BufTable) (next : ℕ) (freed : List ℕ)
    (h : freed.Perm (List.range next)) :
    Phase ⟨false, false, 0, false, uciBuf, 0, true, next, freed⟩

theorem Owns.holds {table : BufTable} {next : ℕ} (h : Owns table next) {block : ℕ}
    (hlt : block < next) : block = table.block ∨ some block ∈ table.pages := by
  have hmem := h.mem_iff.2 (List.mem_range.2 hlt)
  rcases List.mem_append.1 hmem with hpage | hblock
  · obtain ⟨page, hpage, heq⟩ := List.mem_filterMap.1 hpage
    obtain rfl : page = some block := heq
    exact .inr hpage
  · exact .inl (List.mem_singleton.1 hblock)

theorem Owns.block_lt {table : BufTable} {next : ℕ} (h : Owns table next) : table.block < next :=
  List.mem_range.1 (h.mem_iff.1 (List.mem_append_right _ (List.mem_singleton.2 rfl)))

/-- A step to a phase is right, but for what an open leaves that has failed. -/
theorem Phase.right (h : Phase s') (hfail : ∀ env, i = .openNode env → (s.mhiUciOpen env).2 ≠ 0 →
    s' = s) : Right s i s' := by
  have hfailed : ∀ env, i = .openNode env → (s.mhiUciOpen env).2 ≠ 0 →
      s'.refCount = s.refCount ∧ s'.started = s.started ∧ s'.uciBuf = s.uciBuf := by
    intro env hi hret
    rw [hfail env hi hret]
    exact ⟨rfl, rfl, rfl⟩
  cases h with
  | fresh =>
    exact ⟨hfailed, iff_of_false nofun fun h => absurd h.1 (Int.lt_irrefl 0), List.nodup_nil,
      fun _ hb => absurd hb List.not_mem_nil, fun _ hb => absurd hb (Nat.not_lt_zero _), nofun⟩
  | opened table files next h =>
    exact ⟨hfailed, iff_of_true rfl ⟨Int.natCast_succ_pos files, rfl⟩, List.nodup_nil,
      fun _ hb => absurd hb List.not_mem_nil, fun _ hb _ => ⟨nofun, table, rfl, h.holds hb⟩,
      fun _ _ _ => List.not_mem_nil⟩
  | removed table files next h =>
    exact ⟨hfailed, iff_of_false nofun nofun, List.nodup_nil,
      fun _ hb => absurd hb List.not_mem_nil, fun _ hb _ => ⟨nofun, table, rfl, h.holds hb⟩, nofun⟩
  | gone uciBuf next freed h =>
    exact ⟨hfailed, iff_of_false nofun nofun, h.nodup_iff.2 List.nodup_range,
      fun _ hb => List.mem_range.1 (h.mem_iff.1 hb),
      fun _ hb hno => absurd (h.mem_iff.2 (List.mem_range.2 hb)) hno, nofun⟩

/-- The table is the first block, and its pages are all others. -/
theorem owns_first (count : ℕ) : Owns ⟨0, (List.range' 1 count).map some⟩ (1 + count) := by
  unfold Owns
  dsimp only
  rw [List.filterMap_map]
  change (List.filterMap some _ ++ [0]).Perm _
  rw [List.filterMap_some, Nat.add_comm, List.range_eq_range', List.range'_succ]
  exact List.perm_append_singleton 0 _

/-- The first open, when `mhi_prepare_for_transfer` has succeeded. -/
theorem mhiUciOpen_probed (hprep : env.prepareRet = 0) :
    (env.InboundOk → Phase (probed.mhiUciOpen env).1 ∧ (probed.mhiUciOpen env).2 = 0)
      ∧ (¬ env.InboundOk → (probed.mhiUciOpen env).2 ≠ 0 ∧ (probed.mhiUciOpen env).1.refCount = 1) := by
  have hopen : probed.mhiUciOpen env
      = let r := UciDev.mhiQueueInbound env { probed with refCount := 1, started := true }
        if r.2 ≠ 0 then ({ r.1 with started := false }.freeBuf, r.2)
        else ({ r.1 with refCount := r.1.refCount + 1, files := r.1.files + 1 }, 0) := by
    unfold UciDev.mhiUciOpen
    rw [hprep]
    rfl
  rw [hopen]
  constructor
  · intro hok
    rw [mhiQueueInbound_ok rfl hok]
    dsimp only
    rw [if_neg (not_not_intro rfl)]
    refine ⟨?_, rfl⟩
    have h := owns_first (env.nrTrbs + 1)
    exact Phase.opened _ 1 _ h
  · intro hno
    obtain ⟨hret, href⟩ := mhiQueueInbound_fails
      (s := { probed with refCount := 1, started := true }) rfl hno
    dsimp only
    rw [if_pos hret]
    refine ⟨hret, ?_⟩
    unfold UciDev.freeBuf
    split
    · exact href
    · exact href

theorem mhiUciOpen_of_not_listed (h : s.listed = false) (env : OpenEnv) :
    s.mhiUciOpen env = (s, - EIO) := by
  unfold UciDev.mhiUciOpen
  rw [h]
  rfl

theorem mhiUciOpen_unprepared (hprep : env.prepareRet ≠ 0) :
    probed.mhiUciOpen env = (probed, (probed.mhiUciOpen env).2) := by
  unfold UciDev.mhiUciOpen probed
  dsimp only
  rw [if_neg (by decide), if_neg (by decide), if_pos (by decide), if_pos hprep]
  rfl

/-- The channels are started, and stay so. -/
theorem mhiUciOpen_opened (env : OpenEnv) (table : BufTable) (files next : ℕ) :
    UciDev.mhiUciOpen env ⟨true, true, files + 1, true, some table, files, false, next, []⟩
      = (⟨true, true, (files + 1 : ℕ) + 1, true, some table, files + 1, false, next, []⟩, 0) := by
  unfold UciDev.mhiUciOpen
  dsimp only
  rw [if_neg (by decide), if_neg (by decide), if_neg (by omega)]
  rfl

theorem step_openNode (h : Phase s) (env : OpenEnv) :
    (Orderly s (.openNode env) →
        Phase (s.mhiUciOpen env).1 ∧ Right s (.openNode env) (s.mhiUciOpen env).1)
      ∧ (Right s (.openNode env) (s.mhiUciOpen env).1 → Orderly s (.openNode env)) := by
  have hsame : s.mhiUciOpen env = (s, (s.mhiUciOpen env).2) →
      Phase (s.mhiUciOpen env).1 ∧ Right s (.openNode env) (s.mhiUciOpen env).1 := by
    intro heq
    rw [heq]
    exact ⟨h, h.right fun _ _ _ => rfl⟩
  have hzero : Phase (s.mhiUciOpen env).1 → (s.mhiUciOpen env).2 = 0 →
      Phase (s.mhiUciOpen env).1 ∧ Right s (.openNode env) (s.mhiUciOpen env).1 := by
    refine fun h' hret => ⟨h', h'.right fun env' heq hne => ?_⟩
    cases heq
    exact absurd hret hne
  cases h with
  | fresh =>
    by_cases hprep : env.prepareRet = 0
    · obtain ⟨hgood, hbad⟩ := mhiUciOpen_probed hprep
      refine ⟨fun hok => ?_, fun hright _ _ _ _ => ?_⟩
      · obtain ⟨hphase, hret⟩ := hgood (hok rfl rfl rfl hprep)
        exact hzero hphase hret
      · by_contra hno
        obtain ⟨hret, href⟩ := hbad hno
        obtain ⟨hkept, -⟩ := hright.failedOpen env rfl hret
        exact absurd (href.symm.trans hkept) (by decide)
    · exact ⟨fun _ => hsame (mhiUciOpen_unprepared hprep), fun _ _ _ _ h0 => absurd h0 hprep⟩
  | opened table files next h =>
    have hopen := mhiUciOpen_opened env table files next
    refine ⟨fun _ => hzero ?_ ?_, fun _ _ _ h0 _ => ?_⟩
    · rw [hopen]
      exact Phase.opened table (files + 1) next h
    · rw [hopen]
    · exact absurd h0 (Int.ne_of_gt (Int.natCast_succ_pos files))
  | removed table files next h =>
    exact ⟨fun _ => hsame (mhiUciOpen_of_not_listed rfl env), fun _ => nofun⟩
  | gone uciBuf next freed h =>
    exact ⟨fun _ => hsame (mhiUciOpen_of_not_listed rfl env), fun _ => nofun⟩

/-- The last release after the removal frees all there is. -/
theorem step_release (h : Phase s) (hs : step s .release = some s') : Phase s' := by
  cases h with
  | fresh => cases hs
  | opened table files next h =>
    rcases files with _ | files
    · cases hs
    · cases hs
      have href : ((files + 1 : ℕ) : ℤ) + 1 - 1 = files + 1 := by omega
      unfold UciDev.mhiUciRelease
      dsimp only
      rw [href, if_neg (by omega)]
      exact Phase.opened table files next h
  | removed table files next h =>
    cases hs
    have href : (files : ℤ) + 1 - 1 = files := by omega
    unfold UciDev.mhiUciRelease
    dsimp only
    rw [href]
    rcases files with _ | files
    · exact Phase.gone _ next _ h
    · rw [if_neg (by omega)]
      exact Phase.removed table files next h
  | gone uciBuf next freed h => cases hs

theorem step_remove (h : Phase s) (hs : step s .remove = some s') :
    (Orderly s .remove → Phase s') ∧ (Right s .remove s' → Orderly s .remove) := by
  cases h with
  | fresh =>
    cases hs
    exact ⟨fun _ => Phase.gone none 0 [] (List.Perm.refl _), fun _ hne => absurd rfl hne⟩
  | opened table files next h =>
    cases hs
    have href : (if (0 : ℤ) < files + 1 then (files : ℤ) + 1 - 1 else files + 1) = files := by
      rw [if_pos (by omega)]
      omega
    unfold UciDev.mhiUciRemove
    dsimp only
    rw [href]
    rcases files with _ | files
    · refine ⟨fun hok => absurd (hok nofun) (Nat.lt_irrefl 0), fun hright => ?_⟩
      -- the table has been allocated, and nothing refers to it any more
      obtain ⟨hgone, -⟩ := hright.not_lost table.block h.block_lt List.not_mem_nil
      exact absurd rfl hgone
    · rw [if_neg (by omega)]
      exact ⟨fun _ => Phase.removed table files next h, fun _ _ => Nat.succ_pos files⟩
  | removed table files next h => cases hs
  | gone uciBuf next freed h => cases hs

theorem step_inv (h : Phase s) (hs : step s i = some s') :
    (Orderly s i → Phase s' ∧ Right s i s') ∧ (Right s i s' → Orderly s i) := by
  cases i with
  | openNode env =>
    cases hs
    exact step_openNode h env
  | release =>
    have h' := step_release h hs
    exact ⟨fun _ => ⟨h', h'.right nofun⟩, fun _ => trivial⟩
  | remove =>
    obtain ⟨hphase, hok⟩ := step_remove h hs
    exact ⟨fun ho => ⟨hphase ho, (hphase ho).right nofun⟩, hok⟩

/-- Every step of a life is right iff every open that starts the channels queues its buffers, and
the device is removed while a file is open or before its table has been allocated. -/
theorem mhiUci_right_iff (is : List Input) (s : UciDev) (hrun : Runs.exec step probed is = some s) :
    Runs.Meets step (fun s i => ∀ s' ∈ step s i, Right s i s') probed is
      ↔ Runs.Meets step Orderly probed is :=
  Runs.meets_right_iff (fun _ _ _ h hs => step_inv h hs) Phase.fresh hrun

/-- Two descriptors are free, and everything goes through. -/
def allOk : OpenEnv := ⟨0, 2, true, fun _ => true, fun _ => none, fun _ => 0⟩

theorem inboundOk_allOk : allOk.InboundOk :=
  ⟨by decide, rfl, fun _ _ => rfl, fun _ _ => rfl⟩

/-- The device is removed while the second file is open. -/
def twoFiles : List Input :=
  [.openNode allOk, .openNode allOk, .release, .remove, .release]

theorem twoFiles_right :
    Runs.Meets step (fun s i => ∀ s' ∈ step s i, Right s i s') probed twoFiles
      ∧ ∃ s, Runs.exec step probed twoFiles = some s ∧ s.gone ∧ s.next = 4
        ∧ s.freed = [1, 2, 3, 0] := by
  refine ⟨(mhiUci_right_iff twoFiles _ rfl).2 ?_, _, rfl, rfl, rfl, rfl⟩
  have hopen : ∀ s, Orderly s (.openNode allOk) := fun _ _ _ _ _ => inboundOk_allOk
  refine ⟨hopen _, fun _ h1 => ⟨hopen _, fun _ h2 => ⟨trivial, fun _ h3 => ⟨fun _ => ?_, fun _ _ =>
    ⟨trivial, fun _ _ => trivial⟩⟩⟩⟩⟩
  cases h1
  cases h2
  cases h3
  decide

/-- The page of the second entry is not allocated, and the memory of the third one is not NULL. -/
def pageFails : OpenEnv := ⟨0, 2, true, fun i => i == 0, fun _ => some 7, fun _ => 0⟩

/-- The second buffer is not queued. -/
def queueFails : OpenEnv :=
  ⟨0, 2, true, fun _ => true, fun _ => none, fun i => if i = 1 then -5 else 0⟩

/-- The next open does not start the channels, and the last release frees everything again. -/
def queueFailed : List Input :=
  [.openNode queueFails, .openNode allOk, .remove, .release]

/-- Only the hidden reference is left. -/
def removedUnopened : List Input :=
  [.openNode allOk, .release, .remove]

/-- After an open has failed at a page, a block is freed that has not been allocated, and the next
open succeeds without starting the channels. After one has failed at a buffer, everything is freed
again by the last release. Where the device is removed with no file open, nothing is freed. -/
theorem lives_wrong :
    (∃ s, Runs.exec step probed [.openNode pageFails, .openNode allOk] = some s ∧ s.refCount = 2
      ∧ s.started = false ∧ s.next = 2 ∧ s.freed = [1, 7, 0])
    ∧ (∃ s, Runs.exec step probed queueFailed = some s ∧ s.freed = [1, 2, 3, 0, 1, 2, 3, 0])
    ∧ (∃ s, Runs.exec step probed removedUnopened = some s ∧ s.gone ∧ s.next = 4 ∧ s.freed = [])
    ∧ ¬ Runs.Meets step (fun s i => ∀ s' ∈ step s i, Right s i s') probed
      [.openNode pageFails, .openNode allOk]
    ∧ ¬ Runs.Meets step (fun s i => ∀ s' ∈ step s i, Right s i s') probed queueFailed
    ∧ ¬ Runs.Meets step (fun s i => ∀ s' ∈ step s i, Right s i s') probed removedUnopened := by
  refine ⟨⟨_, rfl, rfl, rfl, rfl, rfl⟩, ⟨_, rfl, rfl⟩, ⟨_, rfl, rfl, rfl, rfl⟩, fun h => ?_,
    fun h => ?_,
    fun h => ?_⟩
  · exact absurd ((h.1 _ rfl).freed_lt 7 (by decide)) (by decide)
  · have hlast := (Runs.meets_of_append (queueFailed.take 3) h rfl).1 _ rfl
    exact absurd hlast.freed_nodup (by decide)
  · have hlast := (Runs.meets_of_append (removedUnopened.take 2) h rfl).1 _ rfl
    exact absurd rfl (hlast.not_lost 0 (by decide) List.not_mem_nil).1

end UciOpen

end BananaWrt
